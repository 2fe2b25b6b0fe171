import DataLink.Call

/-!
# What calls keep

Most calls of a layer change nothing that a property of its state is about. `Call.Keeps` says so for
one call, and a call that is made of several keeps what each of them keeps. A call that fails keeps
the property as well, as it keeps what it changed.
-/

namespace DataLink.Call

variable {σ ε α β : Type} {I : σ → Prop}

/-- In a state with `I` the call leaves one with `I`, and if it succeeds its result has `Q`. -/
def Keeps (I : σ → Prop) (step : Call σ α) (Q : α → Prop) : Prop :=
  ∀ s, I s → I (step s).2 ∧ ∀ a, (step s).1 = .ok a → Q a

/-- The call keeps `I`, whatever its result. -/
abbrev Preserves (I : σ → Prop) (step : Call σ α) : Prop := step.Keeps I fun _ => True

namespace Keeps

variable {Q : α → Prop} {R : β → Prop}

theorem pure {a : α} (h : Q a) : (Pure.pure a : Call σ α).Keeps I Q := by
  intro s hs
  refine ⟨hs, fun b hb => ?_⟩
  cases hb
  exact h

theorem fail (e : LayerError) : (Call.fail e : Call σ α).Keeps I Q :=
  fun _ hs => ⟨hs, fun _ h => by cases h⟩

theorem ofLayer {r : Except LayerError α} (h : ∀ a, r = .ok a → Q a) :
    (Call.ofLayer r : Call σ α).Keeps I Q := by
  cases r with
  | ok a => exact pure (h a rfl)
  | error e => exact fail e

theorem ofExcept {r : Except Fault α} (h : ∀ a, r = .ok a → Q a) :
    (Call.ofExcept r : Call σ α).Keeps I Q := by
  intro s hs
  rw [ofExcept_apply]
  exact ⟨hs, h⟩

/-- A call that fails does not get to the next one. -/
theorem bind {step : Call σ α} {next : α → Call σ β} (h : step.Keeps I Q)
    (hnext : ∀ a, Q a → (next a).Keeps I R) : (step >>= next).Keeps I R := by
  intro s hs
  obtain ⟨hI, hQ⟩ := h s hs
  rw [bind_apply]
  rcases hstep : step s with ⟨e | a, t⟩
  · rw [hstep] at hI
    exact ⟨hI, fun _ h => by cases h⟩
  · rw [hstep] at hI hQ
    exact hnext a (hQ a rfl) t hI

theorem own {I : Inside σ ε → Prop} {Q : σ → Prop} (h : ∀ s, I s → Q s.layer) :
    (Call.own : Call (Inside σ ε) σ).Keeps I Q := by
  intro s hs
  refine ⟨hs, fun a ha => ?_⟩
  cases ha
  exact h s hs

theorem look {I : Inside σ ε → Prop} : (Call.own : Call (Inside σ ε) σ).Preserves I :=
  fun _ hs => ⟨hs, fun _ _ => trivial⟩

theorem change {I : Inside σ ε → Prop} {f : σ → σ}
    (h : ∀ s, I s → I { s with layer := f s.layer }) : (Call.change f).Preserves I :=
  fun s hs => ⟨h s hs, fun _ _ => trivial⟩

theorem outward {I : Inside σ ε → Prop} {step : Call ε α}
    (h : ∀ s, I s → I { s with around := (step s.around).2 } ∧
      ∀ a, (step s.around).1 = .ok a → Q a) : (Call.outward step : Call (Inside σ ε) α).Keeps I Q :=
  h

theorem attempt {step : Call σ α} (h : step.Preserves I) : (Call.attempt step).Preserves I := by
  intro s hs
  have hI := (h s hs).1
  rw [Call.attempt]
  rcases hstep : step s with ⟨(e | _) | a, t⟩ <;> rw [hstep] at hI <;> exact ⟨hI, fun _ _ => trivial⟩

theorem ite {c : Prop} [Decidable c] {step other : Call σ α} (h : step.Keeps I Q)
    (hother : other.Keeps I Q) : (if c then step else other).Keeps I Q := by
  split
  · exact h
  · exact hother

/-- What a call followed by another one comes to: the first one fails and has kept `I`, or it has
kept `I` and the second one follows. -/
theorem followed {C : Except Fault β → σ → Prop} {step : Call σ α} {next : α → Call σ β} {s : σ}
    (h : step.Keeps I Q) (hs : I s) (hstop : ∀ e t, I t → C (.error e) t)
    (hnext : ∀ a t, Q a → I t → C (next a t).1 (next a t).2) :
    C ((step >>= next) s).1 ((step >>= next) s).2 := by
  obtain ⟨hI, hQ⟩ := h s hs
  rw [bind_apply]
  rcases hstep : step s with ⟨e | a, t⟩
  · rw [hstep] at hI
    exact hstop e t hI
  · rw [hstep] at hI hQ
    exact hnext a t (hQ a rfl) hI

/-- What holds after the first of two calls holds after both, if the second one keeps it. -/
theorem afterBind {step : Call σ α} {next : α → Call σ β} {s : σ} (h : I (step s).2)
    (hnext : ∀ a, (next a).Preserves I) : I ((step >>= next) s).2 := by
  rw [bind_apply]
  rcases hstep : step s with ⟨e | a, t⟩ <;> rw [hstep] at h
  · exact h
  · exact (hnext a t h).1

end Keeps

end DataLink.Call
