import MyHttp.Http.Limits
import MyHttp.Theorems.Config.FromString

/-! The numbers that are read for the limits follow their variables only as long as nothing happens that would show the
    listeners to be on the wrong ones: those for the body sizes are told about the buffer sizes. -/

namespace MyHttp
namespace Http
namespace Limits

open Lib.CString Lib.Run

variable {given : Nat} {s : Limits} {c : Call} {calls before : List Call} {x y : MessageKind × Limit} {v : UInt64}

/-- Each of the functions returns the current value of the variable of its name. -/
structure Follows (s : Limits) : Prop where
  requestBufferSize : s.getHttpRequestBufferSize = (s.vars (.request, .bufferSize)).val
  requestMaxBodySize : s.getHttpRequestMaxBodySize = (s.vars (.request, .maxBodySize)).val
  responseBufferSize : s.getHttpResponseBufferSize = (s.vars (.response, .bufferSize)).val
  responseMaxBodySize : s.getHttpResponseMaxBodySize = (s.vars (.response, .maxBodySize)).val

theorem follows_iff_cached : s.Follows ↔ ∀ x, s.cached x = (s.vars x).val := by
  constructor
  · rintro h ⟨_ | _, _ | _⟩
    · exact h.requestBufferSize
    · exact h.requestMaxBodySize
    · exact h.responseBufferSize
    · exact h.responseMaxBodySize
  · exact fun h => ⟨h _, h _, h _, h _⟩

/-- The value that a call is to give to its variable, if it has one. -/
def Call.value : Call → Option UInt64
  | .setValue _ v => some v
  | .fromString _ val => fromStr val

/-- The call changes nothing, or gives a buffer size the value of the body size beside it. -/
def Harmless (s : Limits) (c : Call) : Prop :=
  ∀ v, c.value = some v → v ≠ (s.vars c.var).val →
    c.var.2 = .bufferSize ∧ v = (s.vars (c.var.1, .maxBodySize)).val

/-- The listeners are where the static initialisation has put them. -/
def Wired (given : Nat) (s : Limits) : Prop := ∀ x, (s.vars x).cbs = keys given x

/-! ### One call -/

theorem run_eq (s : ConfigValue UInt64) (c : Call) : c.run s =
    match c.value with
    | none => (false, [], s)
    | some v => s.setValue (fun _ _ _ => false) v := by
  cases c with
  | setValue x v => rfl
  | fromString x val =>
    show s.fromString fromStr _ val = match fromStr val with | none => _ | some v => _
    unfold ConfigValue.fromString
    cases fromStr val <;> rfl

theorem step_same (h : ∀ v, c.value = some v → v = (s.vars c.var).val) : step given s c = s := by
  unfold step
  rw [run_eq]
  cases hvalue : c.value with
  | none =>
    dsimp only
    rw [Function.update_eq_self]
    rfl
  | some v =>
    dsimp only
    rw [ConfigValue.setValue_same _ (h v hvalue)]
    dsimp only
    rw [Function.update_eq_self]
    rfl

/-- Both numbers beside a buffer size are set when it changes, and none when a body size does. -/
theorem foldl_onChange (cached : MessageKind × Limit → UInt64) (old val : UInt64) :
    ((keys given x).map fun key => (⟨key, old, v, val⟩ : Notice UInt64)).foldl (onChange given) cached y =
      if x.2 = .bufferSize ∧ y.1 = x.1 then v else cached y := by
  have hkeys : keys given x = match x with
      | (.request, .bufferSize) => [given + 1 + 0, given + 1 + 1]
      | (.response, .bufferSize) => [given + 1 + 2, given + 1 + 3]
      | (_, .maxBodySize) => [] := by
    rcases x with ⟨_ | _, _ | _⟩ <;> rfl
  have hread : ∀ i, given + 1 + i - (given + 1) = i := fun i => Nat.add_sub_cancel_left ..
  rw [hkeys]
  rcases x with ⟨_ | _, _ | _⟩ <;> rcases y with ⟨_ | _, _ | _⟩ <;>
    simp [onChange, hread, listeners]

theorem step_change (hwired : s.Wired given) (hvalue : c.value = some v) (hne : v ≠ (s.vars c.var).val) :
    (step given s c).vars = Function.update s.vars c.var { s.vars c.var with val := v } ∧
      ∀ y, (step given s c).cached y = if c.var.2 = .bufferSize ∧ y.1 = c.var.1 then v else s.cached y := by
  unfold step
  rw [run_eq, hvalue]
  dsimp only
  rw [ConfigValue.setValue_quiet hne fun _ _ => rfl]
  refine ⟨rfl, fun y => ?_⟩
  dsimp only
  rw [hwired]
  exact foldl_onChange ..

theorem wired_step (h : s.Wired given) (c : Call) : (step given s c).Wired given := by
  by_cases hsame : ∀ v, c.value = some v → v = (s.vars c.var).val
  · rwa [step_same hsame]
  · push Not at hsame
    obtain ⟨v, hvalue, hne⟩ := hsame
    intro x
    rw [(step_change h hvalue hne).1]
    by_cases hx : x = c.var
    · rw [hx, Function.update_self]
      exact h c.var
    · rw [Function.update_of_ne hx]
      exact h x

/-- What was in step stays so exactly when the call is harmless. -/
theorem follows_step (hwired : s.Wired given) (h : s.Follows) (c : Call) :
    (step given s c).Follows ↔ s.Harmless c := by
  by_cases hsame : ∀ v, c.value = some v → v = (s.vars c.var).val
  · rw [step_same hsame]
    exact iff_of_true h fun v hvalue hne => absurd (hsame v hvalue) hne
  · push Not at hsame
    obtain ⟨v, hvalue, hne⟩ := hsame
    obtain ⟨hvars, hcached⟩ := step_change hwired hvalue hne
    have hall := follows_iff_cached.mp h
    rw [follows_iff_cached]
    constructor
    · intro hafter w hw hne
      obtain rfl : v = w := Option.some.inj (hvalue.symm.trans hw)
      by_cases hbuffer : c.var.2 = .bufferSize
      · -- then the number for the body size has been set as well
        refine ⟨hbuffer, ?_⟩
        have hbeside : (c.var.1, Limit.maxBodySize) ≠ c.var := by
          intro heq
          rw [← heq] at hbuffer
          cases hbuffer
        have hbody := hafter (c.var.1, .maxBodySize)
        rwa [hcached, hvars, if_pos ⟨hbuffer, rfl⟩, Function.update_of_ne hbeside] at hbody
      · have hself := hafter c.var
        rw [hcached, hvars, if_neg fun hand => hbuffer hand.1, Function.update_self, hall] at hself
        exact absurd hself.symm hne
    · intro hharmless y
      obtain ⟨hbuffer, hbody⟩ := hharmless v hvalue hne
      rw [hcached, hvars]
      by_cases hy : y = c.var
      · rw [hy, if_pos ⟨hbuffer, rfl⟩, Function.update_self]
      · rw [Function.update_of_ne hy]
        by_cases hkind : y.1 = c.var.1
        · have hlimit : y = (c.var.1, .maxBodySize) := by
            refine Prod.ext hkind ?_
            cases hlast : y.2 with
            | bufferSize => exact absurd (Prod.ext hkind (hlast.trans hbuffer.symm)) hy
            | maxBodySize => rfl
          rw [if_pos ⟨hbuffer, hkind⟩, hbody, hlimit]
        · rw [if_neg fun hand => hkind hand.2]
          exact hall y

/-! ### Runs -/

theorem wired_run (given : Nat) (calls : List Call) : (calls.foldl (step given) (init given)).Wired given :=
  List.foldlRecOn (motive := Wired given) calls (step given) (fun _ => rfl) fun _ h c _ => wired_step h c

/-- After each call of a run the four functions return the values of their variables, if and only if each call of the run
    is harmless in the state before it. -/
theorem cached_follow_iff (given : Nat) (calls : List Call) :
    (∀ before, before <+: calls → (before.foldl (step given) (init given)).Follows) ↔
      ∀ before c, before ++ [c] <+: calls → (before.foldl (step given) (init given)).Harmless c := by
  have hstart : (init given).Wired given ∧ (init given).Follows := ⟨fun _ => rfl, rfl, rfl, rfl, rfl⟩
  have hruns := foldl_invariant_iff (P := fun s : Limits => s.Wired given ∧ s.Follows) hstart
    (fun s c h => (and_iff_right (wired_step h.1 c)).trans (follows_step h.1 h.2 c)) calls
  rw [← hruns]
  exact forall₂_congr fun before _ => (and_iff_right (wired_run given before)).symm

/-- A new buffer size becomes the limit of bodies. -/
theorem buffer_size_limits_bodies : ¬∀ given calls before, before <+: calls →
    (before.foldl (step given) (init given)).Follows := by
  intro h
  have hbody := (h 0 [.setValue (.request, .bufferSize) 8192] _ (List.prefix_refl _)).requestMaxBodySize
  exact absurd hbody (by decide)

end Limits
end Http
end MyHttp
