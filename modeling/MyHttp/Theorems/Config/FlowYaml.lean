import MyHttp.Config.Yaml
import MyHttp.Theorems.Http.Serializers

/-! A YAML library that loads what it emits: it writes every node in flow style with its scalars in quotation marks, and
    reads back texts that are written so. -/

namespace MyHttp
namespace FlowYaml

open Lib.CString Http

/-! ### Writing -/

/-- A byte between quotation marks. -/
def escaped (c : UInt8) : Bytes := if c = 34 ∨ c = 92 then [92, c] else [c]

def quoted (s : Bytes) : Bytes := s.flatMap escaped ++ [34]

mutual

def emit : Yaml → Bytes
  | .null => [126]
  | .scalar s => 34 :: quoted s
  | .sequence items => 91 :: emitItems items
  | .map entries => 123 :: emitEntries entries

def emitItems : List Yaml → Bytes
  | [] => [93]
  | node :: items => emit node ++ 44 :: emitItems items

def emitEntries : List (Yaml × Yaml) → Bytes
  | [] => [125]
  | (key, value) :: entries => emit key ++ 58 :: 32 :: (emit value ++ 44 :: emitEntries entries)

end

/-! ### Reading -/

/-- The text up to the closing quotation mark, and what is behind it. -/
def readQuoted : Bytes → Option (Bytes × Bytes)
  | [] => none
  | 34 :: rest => some ([], rest)
  | 92 :: c :: rest => (readQuoted rest).map fun r => (c :: r.1, r.2)
  | c :: rest => (readQuoted rest).map fun r => (c :: r.1, r.2)

mutual

/-- The node at the front, in so many steps at most, and what is behind it. -/
def read : Nat → Bytes → Option (Yaml × Bytes)
  | 0, _ => none
  | _ + 1, 126 :: rest => some (.null, rest)
  | _ + 1, 34 :: rest => (readQuoted rest).map fun r => (.scalar r.1, r.2)
  | steps + 1, 91 :: rest => (readItems steps rest).map fun r => (.sequence r.1, r.2)
  | steps + 1, 123 :: rest => (readEntries steps rest).map fun r => (.map r.1, r.2)
  | _ + 1, _ => none

def readItems : Nat → Bytes → Option (List Yaml × Bytes)
  | 0, _ => none
  | _ + 1, 93 :: rest => some ([], rest)
  | steps + 1, s =>
    match read steps s with
    | some (node, 44 :: rest) => (readItems steps rest).map fun r => (node :: r.1, r.2)
    | _ => none

def readEntries : Nat → Bytes → Option (List (Yaml × Yaml) × Bytes)
  | 0, _ => none
  | _ + 1, 125 :: rest => some ([], rest)
  | steps + 1, s =>
    match read steps s with
    | some (key, 58 :: 32 :: rest) =>
      match read steps rest with
      | some (value, 44 :: rest) => (readEntries steps rest).map fun r => ((key, value) :: r.1, r.2)
      | _ => none
    | _ => none

end

/-- The whole text. -/
def load (s : Bytes) : Option Yaml :=
  match read s.length s with
  | some (node, []) => some node
  | _ => none

/-! ### What is written is read -/

variable {rest : Bytes} {steps : Nat}

theorem readQuoted_quoted (s : Bytes) : readQuoted (quoted s ++ rest) = some (s, rest) := by
  induction s with
  | nil => rfl
  | cons c s ih =>
    have hmore : quoted (c :: s) ++ rest = escaped c ++ (quoted s ++ rest) := by
      rw [quoted, quoted, List.flatMap_cons, List.append_assoc, List.append_assoc, List.append_assoc]
    rw [hmore, escaped]
    split
    case isTrue =>
      show (readQuoted (quoted s ++ rest)).map _ = _
      rw [ih]
      rfl
    case isFalse hc =>
      obtain ⟨hquote, hslash⟩ := not_or.mp hc
      rw [List.singleton_append, readQuoted, ih]
      · rfl
      · exact fun heq => hquote heq
      · exact fun _ _ heq => (hslash heq).elim

/-- The first byte of a node is not one that closes a list. -/
theorem emit_head (node : Yaml) : ∃ c t, emit node = c :: t ∧ c ≠ 93 ∧ c ≠ 125 := by
  cases node with
  | null => exact ⟨126, [], by rw [emit], by decide, by decide⟩
  | scalar s => exact ⟨34, _, by rw [emit], by decide, by decide⟩
  | sequence items => exact ⟨91, _, by rw [emit], by decide, by decide⟩
  | map entries => exact ⟨123, _, by rw [emit], by decide, by decide⟩

theorem readItems_cons {node : Yaml} {c : UInt8} {t s : Bytes} (hs : s = c :: t) (hc : c ≠ 93)
    (hread : read steps s = some (node, 44 :: rest)) :
    readItems (steps + 1) s = (readItems steps rest).map fun r => (node :: r.1, r.2) := by
  subst hs
  rw [readItems]
  · rw [hread]
    rfl
  · exact fun _ heq => hc (List.cons.inj heq).1

theorem readEntries_cons {key value : Yaml} {c : UInt8} {t s s' : Bytes} (hs : s = c :: t) (hc : c ≠ 125)
    (hkey : read steps s = some (key, 58 :: 32 :: s')) (hvalue : read steps s' = some (value, 44 :: rest)) :
    readEntries (steps + 1) s = (readEntries steps rest).map fun r => ((key, value) :: r.1, r.2) := by
  subst hs
  rw [readEntries]
  · rw [hkey]
    simp only [hvalue]
  · exact fun _ heq => hc (List.cons.inj heq).1

mutual

theorem read_emit : ∀ (node : Yaml) (rest : Bytes) (steps : Nat), (emit node).length ≤ steps →
    read steps (emit node ++ rest) = some (node, rest)
  | .null, rest, steps, h => by
    obtain ⟨steps, rfl⟩ := Nat.exists_eq_succ_of_ne_zero (Nat.ne_zero_of_lt h)
    rw [emit]
    rfl
  | .scalar s, rest, steps, h => by
    obtain ⟨steps, rfl⟩ := Nat.exists_eq_succ_of_ne_zero (Nat.ne_zero_of_lt h)
    rw [emit, List.cons_append, read, readQuoted_quoted]
    rfl
  | .sequence items, rest, steps, h => by
    obtain ⟨steps, rfl⟩ := Nat.exists_eq_succ_of_ne_zero (Nat.ne_zero_of_lt h)
    rw [emit, List.length_cons] at h
    rw [emit, List.cons_append, read, readItems_emit items rest steps (Nat.le_of_succ_le_succ h)]
    rfl
  | .map entries, rest, steps, h => by
    obtain ⟨steps, rfl⟩ := Nat.exists_eq_succ_of_ne_zero (Nat.ne_zero_of_lt h)
    rw [emit, List.length_cons] at h
    rw [emit, List.cons_append, read, readEntries_emit entries rest steps (Nat.le_of_succ_le_succ h)]
    rfl

theorem readItems_emit : ∀ (items : List Yaml) (rest : Bytes) (steps : Nat), (emitItems items).length ≤ steps →
    readItems steps (emitItems items ++ rest) = some (items, rest)
  | [], rest, steps, h => by
    obtain ⟨steps, rfl⟩ := Nat.exists_eq_succ_of_ne_zero (Nat.ne_zero_of_lt h)
    rw [emitItems]
    rfl
  | node :: items, rest, steps, h => by
    obtain ⟨c, t, hhead, hc, -⟩ := emit_head node
    rw [emitItems, List.length_append, List.length_cons] at h
    obtain ⟨steps, rfl⟩ : ∃ k, steps = k + 1 := ⟨steps - 1, by omega⟩
    have hread := read_emit node (44 :: (emitItems items ++ rest)) steps (by omega)
    rw [emitItems, List.append_assoc, List.cons_append]
    rw [readItems_cons (by rw [hhead, List.cons_append]) hc hread, readItems_emit items rest steps (by omega)]
    rfl

theorem readEntries_emit : ∀ (entries : List (Yaml × Yaml)) (rest : Bytes) (steps : Nat),
    (emitEntries entries).length ≤ steps → readEntries steps (emitEntries entries ++ rest) = some (entries, rest)
  | [], rest, steps, h => by
    obtain ⟨steps, rfl⟩ := Nat.exists_eq_succ_of_ne_zero (Nat.ne_zero_of_lt h)
    rw [emitEntries]
    rfl
  | (key, value) :: entries, rest, steps, h => by
    obtain ⟨c, t, hhead, -, hc⟩ := emit_head key
    rw [emitEntries, List.length_append, List.length_cons, List.length_cons, List.length_append, List.length_cons] at h
    obtain ⟨steps, rfl⟩ : ∃ k, steps = k + 1 := ⟨steps - 1, by omega⟩
    have hvalue := read_emit value (44 :: (emitEntries entries ++ rest)) steps (by omega)
    have hkey := read_emit key (58 :: 32 :: (emit value ++ 44 :: (emitEntries entries ++ rest))) steps (by omega)
    rw [emitEntries, List.append_assoc, List.cons_append, List.cons_append, List.append_assoc, List.cons_append]
    rw [readEntries_cons (by rw [hhead, List.cons_append]) hc hkey hvalue,
      readEntries_emit entries rest steps (by omega)]
    rfl

end

theorem load_emit (node : Yaml) : load (emit node) = some node := by
  have hread := read_emit node [] (emit node).length (Nat.le_refl _)
  rw [List.append_nil] at hread
  unfold load
  rw [hread]

/-! ### Numbers -/

def intText (n : Int32) : Bytes := if n.toInt < 0 then 45 :: decimalText n.toInt.natAbs else decimalText n.toInt.natAbs

/-- A number that is an `int`. -/
def intOf (n : Int) : Option Int32 := if (Int32.ofInt n).toInt = n then some (Int32.ofInt n) else none

def isdigit (c : UInt8) : Bool := 48 ≤ c && c ≤ 57

def readInt (s : Bytes) : Option Int32 :=
  match s with
  | 45 :: s => if s ≠ [] ∧ s.all isdigit then intOf (-(digits 10 0 s : Nat)) else none
  | s => if s ≠ [] ∧ s.all isdigit then intOf (digits 10 0 s) else none

theorem intOf_toInt (n : Int32) : intOf n.toInt = some n := by
  rw [intOf, Int32.ofInt_toInt, if_pos rfl]

theorem isDigits_decimalText (n : Nat) : decimalText n ≠ [] ∧ (decimalText n).all isdigit := by
  refine ⟨decimalText_ne_nil, List.all_eq_true.mpr fun c hc => ?_⟩
  obtain ⟨hlow, hhigh⟩ := digits_of_decimalText hc
  rw [isdigit, Bool.and_eq_true, decide_eq_true_eq, decide_eq_true_eq]
  exact ⟨hlow, hhigh⟩

theorem readInt_intText (n : Int32) : readInt (intText n) = some n := by
  have hdigits := isDigits_decimalText n.toInt.natAbs
  unfold intText
  split
  case isTrue hneg =>
    have habs : -(n.toInt.natAbs : Int) = n.toInt := by omega
    rw [readInt, if_pos hdigits, digits_decimalText, habs, intOf_toInt]
  case isFalse hpos =>
    have habs : (n.toInt.natAbs : Int) = n.toInt := by omega
    rw [readInt, if_pos hdigits, digits_decimalText, habs, intOf_toInt]
    -- a digit is no minus sign
    intro s hs
    have hmem : 45 ∈ decimalText n.toInt.natAbs := hs ▸ List.mem_cons_self
    exact absurd (digits_of_decimalText hmem).1 (by decide)

end FlowYaml

/-- The library. -/
def flowYaml : YamlCpp where
  load := FlowYaml.load
  emit := FlowYaml.emit
  asString
    | .scalar s => some s
    | _ => none
  asInt
    | .scalar s => FlowYaml.readInt s
    | _ => none
  ofInt n := .scalar (FlowYaml.intText n)
  elements
    | .sequence items => items
    | _ => []

end MyHttp
