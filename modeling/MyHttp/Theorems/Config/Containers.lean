import MyHttp.Config.Containers
import MyHttp.Theorems.Config.Casts

/-! What containers of the configuration lose on their way to a text and back: what their innermost elements lose in a node,
    and nothing else. What has come back once comes back again. -/

namespace MyHttp

open Lib.CString Lib.Containers

variable {yaml : YamlCpp} {T S α β γ : Type}

/-! ### Lists of casts -/

theorem mapM_bind {f : α → Option β} {g : β → Option γ} {l : List α} :
    (l.mapM f).bind (·.mapM g) = l.mapM fun a => (f a).bind g := by
  induction l with
  | nil => rfl
  | cons a l ih =>
    rw [List.mapM_cons, List.mapM_cons, ← ih]
    cases ha : f a with
    | none => rfl
    | some b =>
      cases hl : l.mapM f with
      | none => cases hb : g b <;> simp [hb]
      | some l' => simp

theorem foldlM_map {f : α → Option β} {ins : S → β → S} {l : List α} {s : S} :
    (l.foldlM (fun s a => (f a).map (ins s)) s) = (l.mapM f).map fun l' => l'.foldl ins s := by
  induction l generalizing s with
  | nil => rfl
  | cons a l ih =>
    rw [List.foldlM_cons, List.mapM_cons]
    cases ha : f a with
    | none => rfl
    | some b =>
      have hrest : ((some b).map (ins s) >>= fun s' => l.foldlM (fun s a => (f a).map (ins s)) s') =
          l.foldlM (fun s a => (f a).map (ins s)) (ins s b) := rfl
      rw [hrest, ih]
      cases l.mapM f <;> rfl

theorem mem_of_mapM {f : α → Option β} {l : List α} {l' : List β} {b : β} (h : l.mapM f = some l') (hb : b ∈ l') :
    ∃ a ∈ l, f a = some b := by
  induction l generalizing l' with
  | nil =>
    cases h
    exact absurd hb List.not_mem_nil
  | cons a l ih =>
    rw [List.mapM_cons] at h
    obtain ⟨b', hb', h⟩ := Option.bind_eq_some_iff.mp h
    obtain ⟨l'', hl'', h⟩ := Option.bind_eq_some_iff.mp h
    cases h
    rcases List.mem_cons.mp hb with rfl | hb
    · exact ⟨a, List.mem_cons_self, hb'⟩
    · obtain ⟨a', ha', heq⟩ := ih hl'' hb
      exact ⟨a', List.mem_cons_of_mem a ha', heq⟩

/-! ### A container whose elements are cast -/

/-- The container of what the elements are cast to. -/
def recast (C : Container α S) (f : α → Option α) (v : S) : Option S := ((C.iterate v).mapM f).map C.build

variable {C : Container α S} {f : α → Option α} {v v' : S}

theorem mem_recast (hC : C.Lawful) (h : recast C f v = some v') {a : α} (ha : a ∈ C.iterate v') :
    ∃ b ∈ C.iterate v, f b = some a := by
  obtain ⟨l, hl, rfl⟩ := Option.map_eq_some_iff.mp h
  exact mem_of_mapM hl (hC.mem_build l a ha)

theorem recast_of_forall (hC : C.Lawful) (h : ∀ a ∈ C.iterate v, f a = some a) : recast C f v = some v := by
  rw [recast, mapM_eq_self_iff.mpr h, Option.map_some, hC.build_iterate]

/-- A cast that gives back what it has given once leaves a container as it is just when it leaves its elements. -/
theorem recast_eq_self_iff (hC : C.Lawful) (hf : ∀ a b, f a = some b → f b = some b) :
    recast C f v = some v ↔ ∀ a ∈ C.iterate v, f a = some a := by
  refine ⟨fun h a ha => ?_, recast_of_forall hC⟩
  obtain ⟨b, -, hb⟩ := mem_recast hC h ha
  exact hf b a hb

theorem recast_settles (hC : C.Lawful) (hf : ∀ a b, f a = some b → f b = some b) (h : recast C f v = some v') :
    recast C f v' = some v' := by
  refine recast_of_forall hC fun a ha => ?_
  obtain ⟨b, -, hb⟩ := mem_recast hC h ha
  exact hf b a hb

/-! ### Texts -/

/-- What a value is read as when its text stands in a node. -/
def reload (yaml : YamlCpp) (toString : T → Option Bytes) (fromString : Bytes → Option T) (v : T) : Option T :=
  ((toString v).bind yaml.load).bind fun node => fromString (yaml.emit node)

/-- What has come back once comes back again. -/
def Settles (yaml : YamlCpp) (toString : T → Option Bytes) (fromString : Bytes → Option T) : Prop :=
  ∀ v v', reload yaml toString fromString v = some v' → reload yaml toString fromString v' = some v'

variable {toString : T → Option Bytes} {fromString : Bytes → Option T}

theorem reload_of_emitted (h : yaml.Lawful) {v : T} (hemit : ∀ text, toString v = some text → ∃ node, text = yaml.emit node) :
    reload yaml toString fromString v = (toString v).bind fromString := by
  unfold reload
  cases htext : toString v with
  | none => rfl
  | some text =>
    obtain ⟨node, rfl⟩ := hemit text htext
    rw [Option.bind_some, h.load_emit]
    rfl

/-! ### Elements -/

namespace YamlCpp

theorem elements_emitted (C : Container T S) (v : S) (text : Bytes) (htext : yaml.elementsToString C toString v = some text) :
    ∃ node, text = yaml.emit node := by
  obtain ⟨nodes, -, rfl⟩ := Option.map_eq_some_iff.mp htext
  exact ⟨_, rfl⟩

theorem elements_bind (h : yaml.Lawful) (C : Container T S) (v : S) :
    (yaml.elementsToString C toString v).bind (yaml.elementsFromString C fromString) =
      recast C (reload yaml toString fromString) v := by
  have hrecast : recast C (reload yaml toString fromString) v =
      (((C.iterate v).mapM fun i => (toString i).bind yaml.load).bind fun nodes =>
        nodes.mapM fun i => fromString (yaml.emit i)).map C.build := by
    rw [mapM_bind]
    rfl
  rw [hrecast, elementsToString, vectorToString]
  cases (C.iterate v).mapM fun i => (toString i).bind yaml.load with
  | none => rfl
  | some nodes =>
    rw [Option.map_some, Option.bind_some, Option.bind_some, elementsFromString, h.load_emit, Option.bind_some, foldlM_map]
    refine congrArg (Option.map C.build) (congrArg (List.mapM fun i => fromString (yaml.emit i)) ?_)
    cases nodes with
    | nil => exact h.elements_null
    | cons node nodes => exact h.elements_sequence _

/-! ### Entries -/

/-- A cast of the value of an entry. -/
def under (f : α → Option β) (i : Bytes × α) : Option (Bytes × β) := (f i.2).map (i.1, ·)

theorem under_eq_self_iff {f : α → Option α} {i : Bytes × α} : under f i = some i ↔ f i.2 = some i.2 := by
  unfold under
  cases f i.2 <;> simp [Prod.ext_iff]

theorem under_settles {f : α → Option α} (hf : ∀ a b, f a = some b → f b = some b) (i j : Bytes × α)
    (h : under f i = some j) : under f j = some j := by
  obtain ⟨b, hb, rfl⟩ := Option.map_eq_some_iff.mp h
  exact under_eq_self_iff.mpr (hf i.2 b hb)

theorem under_bind {f : α → Option β} {g : β → Option γ} (i : Bytes × α) :
    (under f i).bind (under g) = under (fun a => (f a).bind g) i := by
  unfold under
  cases hf : f i.2 <;> simp [hf]

theorem keys_mapM {f : α → Option β} {l : List (Bytes × α)} {l' : List (Bytes × β)} (h : l.mapM (under f) = some l') :
    l'.map Prod.fst = l.map Prod.fst := by
  induction l generalizing l' with
  | nil =>
    cases h
    rfl
  | cons i l ih =>
    rw [List.mapM_cons] at h
    obtain ⟨j, hj, h⟩ := Option.bind_eq_some_iff.mp h
    obtain ⟨l'', hl'', h⟩ := Option.bind_eq_some_iff.mp h
    obtain ⟨b, -, rfl⟩ := Option.map_eq_some_iff.mp hj
    cases h
    rw [List.map_cons, List.map_cons, ih hl'']

theorem assign_new {entries : List (Yaml × Yaml)} {key : Bytes} {value : Yaml}
    (h : ∀ e ∈ entries, Yaml.isKey key e.1 = false) : Yaml.assign entries key value = entries ++ [(.scalar key, value)] := by
  induction entries with
  | nil => rfl
  | cons e entries ih =>
    have hother : ¬Yaml.isKey key e.1 = true := Bool.eq_false_iff.mp (h e List.mem_cons_self)
    rw [Yaml.assign, if_neg hother, ih fun e he => h e (List.mem_cons_of_mem _ he)]
    rfl

theorem foldl_assign {l : List (Bytes × Yaml)} {entries : List (Yaml × Yaml)} (hl : l.Pairwise fun i j => i.1 ≠ j.1)
    (h : ∀ e ∈ entries, ∀ i ∈ l, Yaml.isKey i.1 e.1 = false) :
    l.foldl (fun entries i => Yaml.assign entries i.1 i.2) entries = entries ++ l.map fun i => (.scalar i.1, i.2) := by
  induction l generalizing entries with
  | nil => exact (List.append_nil entries).symm
  | cons i l ih =>
    obtain ⟨hi, hl⟩ := List.pairwise_cons.mp hl
    have hnext : ∀ e ∈ entries ++ [(Yaml.scalar i.1, i.2)], ∀ j ∈ l, Yaml.isKey j.1 e.1 = false := by
      intro e he j hj
      rcases List.mem_append.mp he with he | he
      · exact h e he j (List.mem_cons_of_mem i hj)
      · rw [List.mem_singleton.mp he]
        exact decide_eq_false (hi j hj)
    rw [List.foldl_cons, assign_new fun e he => h e he i List.mem_cons_self, ih hl hnext, List.append_assoc]
    rfl

/-- The entries of a container stand in a node as they are iterated. -/
theorem foldlM_assign {l : List (Bytes × T)} (f : T → Option Yaml) (hl : l.Pairwise fun i j => i.1 ≠ j.1) :
    (l.foldlM (fun entries i => (f i.2).map (Yaml.assign entries i.1)) []) =
      (l.mapM (under f)).map (·.map fun i => (Yaml.scalar i.1, i.2)) := by
  have hunder : (l.foldlM (fun entries i => (f i.2).map (Yaml.assign entries i.1)) []) =
      l.foldlM (fun entries i => (under f i).map fun j => Yaml.assign entries j.1 j.2) [] := by
    simp only [under, Option.map_map]
    rfl
  rw [hunder, foldlM_map]
  cases hmap : l.mapM (under f) with
  | none => rfl
  | some l' =>
    have hl' : l'.Pairwise fun i j => i.1 ≠ j.1 := by
      rw [← List.pairwise_map (f := Prod.fst) (R := (· ≠ ·)), keys_mapM hmap]
      exact List.pairwise_map.mpr hl
    rw [Option.map_some, Option.map_some, foldl_assign hl' fun e he => absurd he List.not_mem_nil]
    rfl

theorem entries_emitted (C : Container (Bytes × T) S) (v : S) (text : Bytes)
    (htext : yaml.entriesToString C toString v = some text) : ∃ node, text = yaml.emit node := by
  obtain ⟨entries, -, rfl⟩ := Option.map_eq_some_iff.mp htext
  exact ⟨_, rfl⟩

theorem entries_bind (h : yaml.Lawful) {C : Container (Bytes × T) S} (hkeys : C.Keyed Prod.fst) (v : S) :
    (yaml.entriesToString C toString v).bind (yaml.entriesFromString C fromString) =
      recast C (under (reload yaml toString fromString)) v := by
  have hread : ∀ entries, (Yaml.ofEntries entries).pairs = some entries := by
    intro entries
    cases entries <;> rfl
  have hassign : ((C.iterate v).foldlM (fun entries i => ((toString i.2).bind yaml.load).map (Yaml.assign entries i.1)) []) =
      ((C.iterate v).mapM (under fun i => (toString i).bind yaml.load)).map (·.map fun i => (Yaml.scalar i.1, i.2)) :=
    foldlM_assign (fun i => (toString i).bind yaml.load) (hkeys v)
  have hrecast : recast C (under (reload yaml toString fromString)) v =
      (((C.iterate v).mapM (under fun i => (toString i).bind yaml.load)).bind
        (·.mapM (under fun i => fromString (yaml.emit i)))).map C.build := by
    rw [mapM_bind]
    simp only [under_bind]
    rfl
  rw [hrecast, entriesToString, hassign]
  cases (C.iterate v).mapM (under fun i => (toString i).bind yaml.load) with
  | none => rfl
  | some l =>
    rw [Option.map_some, Option.map_some, Option.bind_some, Option.bind_some, entriesFromString, h.load_emit,
      Option.bind_some, hread, Option.bind_some]
    have hunder : (l.map fun i => (Yaml.scalar i.1, i.2)).foldlM (fun s it =>
          (fromString (yaml.emit it.2)).map fun value => C.insert s (it.1.Scalar, value)) C.empty =
        l.foldlM (fun s i => (under (fun i => fromString (yaml.emit i)) i).map (C.insert s)) C.empty := by
      simp only [List.foldlM_map, under, Option.map_map]
      rfl
    rw [hunder, foldlM_map]
    rfl

/-! ### Nested casts -/

/-- The casts of containers in containers, with which of their values come back: those whose innermost values do. -/
inductive Cast (yaml : YamlCpp) : {T : Type} → (T → Option Bytes) → (Bytes → Option T) → (T → Prop) → Prop where
  /-- a cast that is not one of a container -/
  | single {T : Type} {toString : T → Option Bytes} {fromString : Bytes → Option T}
    (h : Settles yaml toString fromString) :
    Cast yaml toString fromString fun v => reload yaml toString fromString v = some v
  | elements {T S : Type} {toString : T → Option Bytes} {fromString : Bytes → Option T} {P : T → Prop} (C : Container T S)
    (hC : C.Lawful) (h : Cast yaml toString fromString P) :
    Cast yaml (yaml.elementsToString C toString) (yaml.elementsFromString C fromString) fun v => ∀ i ∈ C.iterate v, P i
  | entries {T S : Type} {toString : T → Option Bytes} {fromString : Bytes → Option T} {P : T → Prop}
    (C : Container (Bytes × T) S) (hC : C.Lawful) (hkeys : C.Keyed Prod.fst) (h : Cast yaml toString fromString P) :
    Cast yaml (yaml.entriesToString C toString) (yaml.entriesFromString C fromString) fun v => ∀ i ∈ C.iterate v, P i.2

variable {P : T → Prop}

theorem elements_iff {C : Container T S} (hC : C.Lawful) (hsettles : Settles yaml toString fromString)
    (helem : ∀ i, reload yaml toString fromString i = some i ↔ P i) (v : S) :
    recast C (reload yaml toString fromString) v = some v ↔ ∀ i ∈ C.iterate v, P i :=
  (recast_eq_self_iff hC hsettles).trans (forall₂_congr fun i _ => helem i)

theorem entries_iff {C : Container (Bytes × T) S} (hC : C.Lawful) (hsettles : Settles yaml toString fromString)
    (helem : ∀ i, reload yaml toString fromString i = some i ↔ P i) (v : S) :
    recast C (under (reload yaml toString fromString)) v = some v ↔ ∀ i ∈ C.iterate v, P i.2 :=
  (recast_eq_self_iff hC (under_settles hsettles)).trans (forall₂_congr fun i _ => under_eq_self_iff.trans (helem i.2))

theorem reload_elements (h : yaml.Lawful) (C : Container T S) (v : S) :
    reload yaml (yaml.elementsToString C toString) (yaml.elementsFromString C fromString) v =
      recast C (reload yaml toString fromString) v :=
  (reload_of_emitted h (elements_emitted C v)).trans (elements_bind h C v)

theorem reload_entries (h : yaml.Lawful) {C : Container (Bytes × T) S} (hkeys : C.Keyed Prod.fst) (v : S) :
    reload yaml (yaml.entriesToString C toString) (yaml.entriesFromString C fromString) v =
      recast C (under (reload yaml toString fromString)) v :=
  (reload_of_emitted h (entries_emitted C v)).trans (entries_bind h hkeys v)

/-- By induction on the nesting, as the casts of the elements give back what they have given once. -/
theorem Cast.reload_iff (h : yaml.Lawful) (hcast : Cast yaml toString fromString P) :
    (∀ v, reload yaml toString fromString v = some v ↔ P v) ∧ Settles yaml toString fromString := by
  induction hcast with
  | single hsettles => exact ⟨fun v => Iff.rfl, hsettles⟩
  | elements C hC _ ih =>
    obtain ⟨helem, hsettles⟩ := ih
    constructor
    · intro v
      rw [reload_elements h]
      exact elements_iff hC hsettles helem v
    · intro v v' hv
      rw [reload_elements h] at hv ⊢
      exact recast_settles hC hsettles hv
  | entries C hC hkeys _ ih =>
    obtain ⟨helem, hsettles⟩ := ih
    constructor
    · intro v
      rw [reload_entries h hkeys]
      exact entries_iff hC hsettles helem v
    · intro v v' hv
      rw [reload_entries h hkeys] at hv ⊢
      exact recast_settles hC (under_settles hsettles) hv

theorem keyLt_ne (i j : Bytes × T) (h : keyLt i j) : i.1 ≠ j.1 := by
  intro heq
  have hlt : i.1 < j.1 := h
  rw [heq] at hlt
  exact List.lt_irrefl j.1 hlt

theorem vectorFromString_eq (cast : Bytes → Option T) :
    yaml.vectorFromString cast = yaml.elementsFromString (sequence T) cast := by
  funext v
  refine congrArg (Option.bind (yaml.load v)) (funext fun node => ?_)
  rw [foldlM_map]
  cases (yaml.elements node).mapM fun i => cast (yaml.emit i) with
  | none => rfl
  | some l => exact congrArg some (build_sequence l).symm

/-- A container comes back from its text just when its elements come back from theirs in a node, at every depth; and what
    has come back once comes back again. -/
theorem containers_roundTrip_iff (h : yaml.Lawful) (hcast : Cast yaml toString fromString P) :
    (∀ v, RoundTrips (yaml.vectorToString toString) (yaml.vectorFromString fromString) v ↔ ∀ i ∈ v, P i) ∧
    (∀ v, RoundTrips (yaml.listToString toString) (yaml.listFromString fromString) v ↔ ∀ i ∈ v, P i) ∧
    (∀ (lt : T → T → Prop) [DecidableRel lt] [IsTrans T lt] (v : Ordered lt),
      RoundTrips (yaml.setToString lt toString) (yaml.setFromString lt fromString) v ↔ ∀ i ∈ v.elems, P i) ∧
    (∀ v : Ordered (keyLt (T := T)),
      RoundTrips (yaml.mapToString toString) (yaml.mapFromString fromString) v ↔ ∀ i ∈ v.elems, P i.2) ∧
    (∀ [DecidableEq T] (iteration : Iteration (id : T → T)) (v : Hashed (id : T → T)),
      RoundTrips (yaml.unorderedSetToString iteration toString) (yaml.unorderedSetFromString iteration fromString) v ↔
        ∀ i ∈ v.elems, P i) ∧
    (∀ [DecidableEq T] (iteration : Iteration (Prod.fst : Bytes × T → Bytes)) (v : Hashed (Prod.fst : Bytes × T → Bytes)),
      RoundTrips (yaml.unorderedMapToString iteration toString) (yaml.unorderedMapFromString iteration fromString) v ↔
        ∀ i ∈ v.elems, P i.2) ∧
    Settles yaml toString fromString := by
  obtain ⟨helem, hsettles⟩ := hcast.reload_iff h
  have helements : ∀ {S : Type} {C : Container T S}, C.Lawful → ∀ v,
      RoundTrips (yaml.elementsToString C toString) (yaml.elementsFromString C fromString) v ↔ ∀ i ∈ C.iterate v, P i :=
    fun {S C} hC v => (Eq.congr_left (elements_bind h C v)).trans (elements_iff hC hsettles helem v)
  have hentries : ∀ {S : Type} {C : Container (Bytes × T) S}, C.Lawful → C.Keyed Prod.fst → ∀ v,
      RoundTrips (yaml.entriesToString C toString) (yaml.entriesFromString C fromString) v ↔ ∀ i ∈ C.iterate v, P i.2 :=
    fun {S C} hC hkeys v => (Eq.congr_left (entries_bind h hkeys v)).trans (entries_iff hC hsettles helem v)
  refine ⟨fun v => ?_, helements sequence_lawful, fun lt _ _ v => helements ordered_lawful v, fun v => ?_,
    fun iteration v => ?_, fun iteration v => ?_, hsettles⟩
  · rw [vectorFromString_eq]
    exact helements sequence_lawful v
  · exact hentries ordered_lawful (ordered_keyed keyLt_ne) v
  · exact (helements (hashed_lawful iteration) v).trans (forall_congr' fun i => imp_congr_left (iteration.mem_order v i))
  · exact (hentries (hashed_lawful iteration) (hashed_keyed iteration) v).trans
      (forall_congr' fun i => imp_congr_left (iteration.mem_order v i))

/-- A string is its own text, so that in a node it is read as what the library emits of it. -/
theorem string_settles (h : yaml.Lawful) : Settles yaml (some : Bytes → Option Bytes) some := by
  intro s s' hs
  obtain ⟨node, -, hs'⟩ := Option.bind_eq_some_iff.mp hs
  cases hs'
  simp only [reload, Option.bind_some, h.load_emit]

/-- A map of lists of strings. -/
theorem containers_roundTrip_iff_lists : RoundTrips (flowYaml.mapToString (flowYaml.listToString some))
    (flowYaml.mapFromString (flowYaml.listFromString some))
    ⟨[(ascii "allow", [ascii "\"GET\"", ascii "\"PUT\""]), (ascii "deny", [])], by decide⟩ := by
  have hcast := Cast.elements (sequence Bytes) sequence_lawful (Cast.single (string_settles flowYaml_lawful))
  refine ((containers_roundTrip_iff flowYaml_lawful hcast).2.2.2.1 _).mpr ?_
  decide

end YamlCpp
end MyHttp
