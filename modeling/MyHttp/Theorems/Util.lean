import MyHttp.Util

/-! `Mkdir` leaves every file as it was and makes only directories that its path goes through. It succeeds just when the path
    was an entry before or leads to a node afterwards, and a second call then has nothing to do. -/

namespace MyHttp
namespace FSUtil

open Lib.CString Lib.FileTree

variable {fs fs' fs'' : FileSystem} {cwd i p : Nat} {text q : Bytes} {ptr : Option Nat}

/-! ### The buffer -/

theorem cStr_append (h : 0 ∉ text) : cStr (text ++ [0]) = text := by
  have hall : ∀ c ∈ text, decide (c ≠ 0) = true := fun c hc => decide_eq_true fun heq => h (heq ▸ hc)
  unfold cStr
  rw [List.takeWhile_append_of_pos hall]
  simp

theorem zero_not_mem_cStr (buf : Bytes) : 0 ∉ cStr buf := by
  intro h
  have hall : (cStr buf).all (· ≠ 0) = true := List.all_takeWhile
  exact absurd rfl (of_decide_eq_true (List.all_eq_true.mp hall 0 h))

theorem cStr_set (h : 0 ∉ text) (hp : p < text.length) : cStr ((text ++ [0]).set p 0) = text.take p := by
  rw [List.set_append_left _ _ hp, List.set_eq_take_append_cons_drop, if_pos hp, List.append_assoc]
  have hall : ∀ c ∈ text.take p, decide (c ≠ 0) = true :=
    fun c hc => decide_eq_true fun heq => h (heq ▸ List.mem_of_mem_take hc)
  rw [cStr, List.takeWhile_append_of_pos hall]
  simp

theorem set_set (hp : text[p]? = some 47) : ((text ++ [0]).set p 0).set p 47 = text ++ [0] := by
  obtain ⟨hlt, hget⟩ := List.getElem?_eq_some_iff.mp hp
  rw [List.set_set, List.set_append_left _ _ hlt, ← hget, List.set_getElem_self]

/-- In a string `strchr` stays within it, and finds a slash or the end. -/
theorem strchr_string (h : 0 ∉ text) (hi : i ≤ text.length) :
    ∃ ptr, strchr 47 i ((text ++ [0]).drop i) = some ptr ∧ ∀ p ∈ ptr, i ≤ p ∧ text[p]? = some 47 := by
  induction hk : text.length - i generalizing i with
  | zero =>
    obtain rfl : i = text.length := by omega
    exact ⟨none, by simp [strchr], nofun⟩
  | succ k ih =>
    have hlt : i < text.length := by omega
    obtain ⟨ptr, hptr, hslash⟩ := ih hlt (by omega)
    rw [List.drop_append_of_le_length hi, List.drop_eq_getElem_cons hlt, List.cons_append, strchr]
    by_cases hc : text[i] = 47
    · refine ⟨some i, if_pos hc, fun p hp => ?_⟩
      obtain rfl := Option.mem_some.mp hp
      exact ⟨Nat.le_refl _, List.getElem?_eq_some_iff.mpr ⟨hlt, hc⟩⟩
    · have hzero : text[i] ≠ 0 := fun heq => h (heq ▸ List.getElem_mem hlt)
      rw [if_neg hc, if_neg hzero, ← List.drop_append_of_le_length hlt]
      exact ⟨ptr, hptr, fun p hp => ⟨Nat.le_of_succ_le (hslash p hp).1, (hslash p hp).2⟩⟩

/-! ### The directories that are made -/

/-- The path itself, or a part of it that ends before a slash. -/
def Part (text q : Bytes) : Prop := q ≠ [] ∧ (q = text ∨ ∃ rest, text = q ++ 47 :: rest)

theorem part_take (hpos : 1 ≤ p) (hp : text[p]? = some 47) : Part text (text.take p) := by
  obtain ⟨hlt, hget⟩ := List.getElem?_eq_some_iff.mp hp
  refine ⟨List.ne_nil_of_length_pos (by rw [List.length_take]; omega), .inr ⟨text.drop (p + 1), ?_⟩⟩
  rw [← hget, ← List.drop_eq_getElem_cons hlt, List.take_append_drop]

theorem access_part (hq : Part text q) (h : fs.access cwd text = true) : fs.access cwd q = true := by
  obtain ⟨hne, rfl | ⟨rest, rfl⟩⟩ := hq
  · exact h
  · exact FileSystem.access_before hne h

theorem extends_mkdirIfMissing (h : mkdirIfMissing fs cwd q = some fs') : fs.Extends fs' := by
  unfold mkdirIfMissing at h
  split at h
  · cases h
    exact .refl fs
  · exact .of_mkdir h

theorem access_mkdirIfMissing (h : mkdirIfMissing fs cwd q = some fs') : fs'.access cwd q = true := by
  unfold mkdirIfMissing at h
  split at h
  case isTrue haccess =>
    cases h
    exact haccess
  case isFalse => exact FileSystem.access_mkdir h

theorem mkdirIfMissing_eq_none (h : mkdirIfMissing fs cwd q = none) : fs.access cwd q = false ∧ fs.mkdir cwd q = none := by
  unfold mkdirIfMissing at h
  split at h
  case isTrue => cases h
  case isFalse haccess => exact ⟨Bool.eq_false_iff.mpr haccess, h⟩

/-- What calls of `__mkdir` for parts of a path have made of a tree. -/
inductive Makes (cwd : Nat) (text : Bytes) (fs : FileSystem) : FileSystem → Prop
  | refl : Makes cwd text fs fs
  | next {fs' fs'' : FileSystem} {q : Bytes} :
    Makes cwd text fs fs' → Part text q → mkdirIfMissing fs' cwd q = some fs'' → Makes cwd text fs fs''

theorem Makes.extends (h : Makes cwd text fs fs') : fs.Extends fs' := by
  induction h with
  | refl => exact .refl fs
  | next _ _ hmake ih => exact ih.trans (extends_mkdirIfMissing hmake)

theorem Makes.trans (h : Makes cwd text fs fs') (h' : Makes cwd text fs' fs'') : Makes cwd text fs fs'' := by
  induction h' with
  | refl => exact h
  | next _ hq hmake ih => exact .next ih hq hmake

/-- Every new directory is where a part of the path leads to. -/
theorem Makes.new (h : Makes cwd text fs fs') (hlow : fs.nodes.length ≤ i) (hhigh : i < fs'.nodes.length) :
    ∃ q, Part text q ∧ fs'.resolve cwd q (components q) = some i := by
  induction h with
  | refl => exact absurd hhigh (Nat.not_lt.mpr hlow)
  | @next fs₁ fs₂ q _ hq hmake ih =>
    by_cases hlt : i < fs₁.nodes.length
    · obtain ⟨q', hq', hresolve⟩ := ih hlt
      exact ⟨q', hq', (extends_mkdirIfMissing hmake).resolve hresolve⟩
    · unfold mkdirIfMissing at hmake
      split at hmake
      · cases hmake
        exact absurd hhigh hlt
      · have hlength := FileSystem.nodes_mkdir hmake
        obtain rfl : i = fs₁.nodes.length := by omega
        exact ⟨q, hq, FileSystem.resolve_mkdir hmake⟩

/-! ### The loop -/

/-- The loop comes to its end: at the end of the path, or at a slash whose directory can be neither found nor made. -/
theorem loop_cases (cwd : Nat) (h : 0 ∉ text) (fuel : Nat) (fs : FileSystem) (ptr : Option Nat) (hfuel : 0 < fuel)
    (hptr : ∀ p ∈ ptr, 1 ≤ p ∧ text[p]? = some 47 ∧ text.length < fuel + p) :
    ∃ fs' path ptr', loop cwd fuel fs (text ++ [0]) ptr = some (fs', path, ptr') ∧ Makes cwd text fs fs' ∧
      (ptr' = none ∧ path = text ++ [0] ∨ ptr'.isSome = true ∧ ∃ q, Part text q ∧ mkdirIfMissing fs' cwd q = none) := by
  induction fuel generalizing fs ptr with
  | zero => cases hfuel
  | succ fuel ih =>
    cases ptr with
    | none => exact ⟨fs, _, none, rfl, .refl, .inl ⟨rfl, rfl⟩⟩
    | some p =>
      obtain ⟨hpos, hp, hlong⟩ := hptr p rfl
      obtain ⟨hlt, -⟩ := List.getElem?_eq_some_iff.mp hp
      rw [loop, cStr_set h hlt, set_set hp]
      cases hmake : mkdirIfMissing fs cwd (text.take p) with
      | none => exact ⟨fs, _, some p, rfl, .refl, .inr ⟨rfl, _, part_take hpos hp, hmake⟩⟩
      | some fs₁ =>
        obtain ⟨ptr, hstrchr, hslash⟩ := strchr_string h hlt
        have hnext : ∀ p' ∈ ptr, 1 ≤ p' ∧ text[p']? = some 47 ∧ text.length < fuel + p' := fun p' hp' =>
          have hle := (hslash p' hp').1
          ⟨by omega, (hslash p' hp').2, by omega⟩
        obtain ⟨fs', path, ptr', hloop, hmakes, hend⟩ := ih fs₁ ptr (by omega) hnext
        refine ⟨fs', path, ptr', ?_, (Makes.refl.next (part_take hpos hp) hmake).trans hmakes, hend⟩
        simp only [hstrchr, Option.bind_some]
        exact hloop

/-- The ways in which `Mkdir` ends when the path is no entry yet. -/
theorem mkdir_cases {dirname : Bytes} (hmissing : fs.lstat cwd (cStr dirname) = false) (hne : cStr dirname ≠ []) :
    ∃ fs' r, mkdir fs cwd dirname = some (fs', r) ∧ Makes cwd (cStr dirname) fs fs' ∧
      (r = true → fs'.access cwd (cStr dirname) = true) ∧
      (r = false → ∃ q, Part (cStr dirname) q ∧ mkdirIfMissing fs' cwd q = none) := by
  have hzero := zero_not_mem_cStr dirname
  rw [mkdir, hmissing, if_neg Bool.noConfusion]
  generalize cStr dirname = text at hzero hne hmissing ⊢
  have hpos : 0 < text.length := List.length_pos_of_ne_nil hne
  obtain ⟨ptr, hstrchr, hslash⟩ := strchr_string hzero hpos
  have hfirst : ∀ p ∈ ptr, 1 ≤ p ∧ text[p]? = some 47 ∧ text.length < (text ++ [0]).length + p := fun p hp =>
    ⟨(hslash p hp).1, (hslash p hp).2, by rw [List.length_append, List.length_singleton]; omega⟩
  obtain ⟨fs', path, ptr', hloop, hmakes, hend⟩ := loop_cases cwd hzero (text ++ [0]).length fs ptr (by simp) hfirst
  simp only [hstrchr, Option.bind_some, hloop, Option.map_some]
  rcases hend with ⟨rfl, rfl⟩ | ⟨hsome, hq⟩
  · rw [cStr_append hzero, if_neg (by simp)]
    cases hmake : mkdirIfMissing fs' cwd text with
    | none => exact ⟨fs', false, rfl, hmakes, nofun, fun _ => ⟨text, ⟨hne, .inl rfl⟩, hmake⟩⟩
    | some fs₁ => exact ⟨fs₁, true, rfl, hmakes.next ⟨hne, .inl rfl⟩ hmake, fun _ => access_mkdirIfMissing hmake, nofun⟩
  · rw [if_pos hsome]
    exact ⟨fs', false, rfl, hmakes, nofun, fun _ => hq⟩

/-- For every tree, with links, and every path: all calls but those with the empty path stay within the copy. -/
theorem mkdir_makes (fs : FileSystem) (cwd : Nat) (dirname : Bytes) :
    (mkdir fs cwd dirname = none ↔ cStr dirname = []) ∧
      ∀ fs' r, mkdir fs cwd dirname = some (fs', r) →
        fs.Extends fs' ∧
        (∀ i, fs.nodes.length ≤ i → i < fs'.nodes.length →
          ∃ q, Part (cStr dirname) q ∧ fs'.resolve cwd q (components q) = some i) ∧
        (r = true ↔ fs.lstat cwd (cStr dirname) = true ∨ fs'.access cwd (cStr dirname) = true) ∧
        (r = true → mkdir fs' cwd dirname = some (fs', true)) ∧
        (r = false → ∃ q, Part (cStr dirname) q ∧ fs'.access cwd q = false ∧ fs'.mkdir cwd q = none) := by
  cases hlstat : fs.lstat cwd (cStr dirname) with
  | true =>
    have hmkdir : mkdir fs cwd dirname = some (fs, true) := by rw [mkdir, if_pos hlstat]
    refine ⟨iff_of_false (by rw [hmkdir]; exact Option.some_ne_none _) fun hnil => ?_, fun fs' r h => ?_⟩
    · rw [hnil] at hlstat
      cases hlstat
    · obtain ⟨rfl, rfl⟩ := Prod.mk.inj (Option.some.inj (hmkdir.symm.trans h))
      exact ⟨.refl fs, fun i hlow hhigh => absurd hhigh (Nat.not_lt.mpr hlow), iff_of_true rfl (.inl rfl), fun _ => hmkdir, nofun⟩
  | false =>
    by_cases hnil : cStr dirname = []
    · have hmkdir : mkdir fs cwd dirname = none := by
        rw [mkdir, hlstat, if_neg Bool.noConfusion, hnil]
        rfl
      exact ⟨iff_of_true hmkdir hnil, fun fs' r h => by rw [hmkdir] at h; cases h⟩
    · obtain ⟨fs₁, r₁, hmkdir, hmakes, hdone, hfailed⟩ := mkdir_cases hlstat hnil
      refine ⟨iff_of_false (by rw [hmkdir]; exact Option.some_ne_none _) hnil, fun fs' r h => ?_⟩
      obtain ⟨rfl, rfl⟩ := Prod.mk.inj (Option.some.inj (hmkdir.symm.trans h))
      refine ⟨hmakes.extends, fun i => hmakes.new, ⟨fun hr => .inr (hdone hr), fun hthere => ?_⟩, fun hr => ?_, fun hr => ?_⟩
      · have haccess := hthere.resolve_left Bool.noConfusion
        cases r₁ with
        | true => rfl
        | false =>
          obtain ⟨q, hq, hnone⟩ := hfailed rfl
          exact absurd ((mkdirIfMissing_eq_none hnone).1.symm.trans (access_part hq haccess)) Bool.noConfusion
      · rw [mkdir, if_pos (FileSystem.lstat_of_access (hdone hr))]
      · obtain ⟨q, hq, hnone⟩ := hfailed hr
        exact ⟨q, hq, mkdirIfMissing_eq_none hnone⟩

example : (mkdir ⟨[.dir 0 [(ascii "log", 1)], .link (ascii "/var")], fun _ _ => false⟩ 0 (ascii "var//../log/x/")).map
    (fun x => (x.1.nodes, x.2)) =
      some ([.dir 0 [(ascii "log", 1), (ascii "var", 2)], .link (ascii "/var"), .dir 0 [(ascii "x", 3)], .dir 2 []], true) := by
  decide +kernel

end FSUtil
end MyHttp
