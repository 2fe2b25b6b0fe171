import DataLink.Proofs.Call

/-!
# Two runs side by side

A call is made in two states that need not be equal, nor of one type. `Call.Mirrors R Q` says that where
`R` relates the states, the one call and the other fail in the same way, or both succeed with results
that `Q` relates; and that `R` relates what they leave. It is to two runs what `Call.Keeps` is to one,
and it has the same rules: calls that are made of several mirror each other if their parts do, one by
one.
-/

namespace DataLink

variable {α β γ δ ε ζ σ τ φ : Type}

/-! ## Results -/

/-- Both fail with one error, or both succeed, with related results. -/
inductive Matching (Q : α → β → Prop) : Except φ α → Except φ β → Prop where
  | ok {a : α} {b : β} (h : Q a b) : Matching Q (.ok a) (.ok b)
  | error (e : φ) : Matching Q (.error e) (.error e)

namespace Matching

variable {Q : α → β → Prop} {T : γ → δ → Prop} {r : Except φ α} {s : Except φ β}

theorem refl (r : Except φ α) : Matching Eq r r := by
  cases r with
  | ok a => exact .ok rfl
  | error e => exact .error e

theorem eq {s : Except φ α} (h : Matching Eq r s) : r = s := by
  cases h with
  | ok h => rw [h]
  | error e => rfl

theorem bind {next : α → Except φ γ} {other : β → Except φ δ} (h : Matching Q r s)
    (hnext : ∀ a b, Q a b → Matching T (next a) (other b)) :
    Matching T (r >>= next) (s >>= other) := by
  cases h with
  | ok h => exact hnext _ _ h
  | error e => exact .error e

theorem bind_same {next : α → Except φ γ} {other : α → Except φ δ} (r : Except φ α)
    (hnext : ∀ a, Matching T (next a) (other a)) : Matching T (r >>= next) (r >>= other) := by
  cases r with
  | ok a => exact hnext a
  | error e => exact .error e

end Matching

/-! ## States -/

/-- The layers are related, and so is what lies around them. -/
structure Inside.Alike (A : σ → τ → Prop) (B : ε → ζ → Prop) (s : Inside σ ε) (t : Inside τ ζ) :
    Prop where
  layer : A s.layer t.layer
  around : B s.around t.around

/-! ## Calls -/

namespace Call

/-- In states that `R` relates the two calls have matching results, and they leave states that `R`
relates. -/
def Mirrors (R : σ → τ → Prop) (step : Call σ α) (other : Call τ β) (Q : α → β → Prop) : Prop :=
  ∀ s t, R s t → Matching Q (step s).1 (other t).1 ∧ R (step s).2 (other t).2

namespace Mirrors

variable {R : σ → τ → Prop} {Q : α → β → Prop} {T : γ → δ → Prop} {A : σ → τ → Prop}
  {B : ε → ζ → Prop}

theorem pure {a : α} {b : β} (h : Q a b) :
    (Pure.pure a : Call σ α).Mirrors R (Pure.pure b) Q :=
  fun _ _ hst => ⟨.ok h, hst⟩

/-- In one and the same state a call does the same. -/
theorem same (step : Call σ α) : step.Mirrors Eq step Eq := by
  rintro s _ rfl
  exact ⟨.refl _, rfl⟩

theorem fail (e : LayerError) : (Call.fail e : Call σ α).Mirrors R (Call.fail e : Call τ β) Q :=
  fun _ _ hst => ⟨.error _, hst⟩

theorem ofExcept {r : Except Fault α} {s : Except Fault β} (h : Matching Q r s) :
    (Call.ofExcept r : Call σ α).Mirrors R (Call.ofExcept s) Q := by
  intro s t hst
  rw [ofExcept_apply, ofExcept_apply]
  exact ⟨h, hst⟩

theorem ofLayer {r : Except LayerError α} {s : Except LayerError β} (h : Matching Q r s) :
    (Call.ofLayer r : Call σ α).Mirrors R (Call.ofLayer s) Q := by
  cases h with
  | ok h => exact pure h
  | error e => exact fail e

/-- If the first call fails, neither run gets to the second one. -/
theorem bind {step : Call σ α} {other : Call τ β} {next : α → Call σ γ} {following : β → Call τ δ}
    (h : step.Mirrors R other Q)
    (hnext : ∀ a b, Q a b → (next a).Mirrors R (following b) T) :
    (step >>= next).Mirrors R (other >>= following) T := by
  intro s t hst
  obtain ⟨hmatch, hafter⟩ := h s t hst
  rw [bind_apply, bind_apply]
  generalize step s = first, other t = second at hmatch hafter
  obtain ⟨r, s⟩ := first
  obtain ⟨r', t⟩ := second
  cases hmatch with
  | ok hQ => exact hnext _ _ hQ s t hafter
  | error e => exact ⟨.error e, hafter⟩

theorem bind_same {step : Call σ α} {other : Call τ α} {next : α → Call σ γ}
    {following : α → Call τ δ} (h : step.Mirrors R other Eq) (hnext : ∀ a, (next a).Mirrors R (following a) T) :
    (step >>= next).Mirrors R (other >>= following) T := by
  refine h.bind fun a b hab => ?_
  rw [← hab]
  exact hnext a

theorem ite {c d : Prop} [Decidable c] [Decidable d] {step step' : Call σ α}
    {other other' : Call τ β} (hcd : c ↔ d) (h : step.Mirrors R other Q)
    (h' : step'.Mirrors R other' Q) :
    (if c then step else step').Mirrors R (if d then other else other') Q := by
  by_cases hc : c
  · rw [if_pos hc, if_pos (hcd.1 hc)]
    exact h
  · rw [if_neg hc, if_neg (mt hcd.2 hc)]
    exact h'

theorem own : (Call.own : Call (Inside σ ε) σ).Mirrors (Inside.Alike A B) Call.own A :=
  fun _ _ hst => ⟨.ok hst.layer, hst⟩

theorem change {f : σ → σ} {g : τ → τ} (h : ∀ a b, A a b → A (f a) (g b)) :
    (Call.change f : Call (Inside σ ε) Unit).Mirrors (Inside.Alike A B) (Call.change g) Eq :=
  fun s t hst => ⟨.ok rfl, ⟨h s.layer t.layer hst.layer, hst.around⟩⟩

theorem outward {step : Call ε α} {other : Call ζ β} (h : step.Mirrors B other Q) :
    (Call.outward step : Call (Inside σ ε) α).Mirrors (Inside.Alike A B) (Call.outward other) Q := by
  intro s t hst
  obtain ⟨hmatch, hafter⟩ := h s.around t.around hst.around
  exact ⟨hmatch, ⟨hst.layer, hafter⟩⟩

end Mirrors

/-! ## One run beside a state that stays -/

namespace Keeps

variable {A : σ → σ → Prop} {B : ε → ε → Prop} {t : Inside σ ε} {Q : α → Prop}

theorem ownBeside : (Call.own : Call (Inside σ ε) σ).Keeps (fun s => Inside.Alike A B s t)
    fun a => A a t.layer :=
  own fun _ hs => hs.layer

theorem changeBeside {f : σ → σ} (h : ∀ a, A a t.layer → A (f a) t.layer) :
    (Call.change f : Call (Inside σ ε) Unit).Preserves fun s => Inside.Alike A B s t :=
  change fun s hs => ⟨h s.layer hs.layer, hs.around⟩

theorem outwardBeside {step : Call ε α} (h : step.Keeps (fun e => B e t.around) Q) :
    (Call.outward step : Call (Inside σ ε) α).Keeps (fun s => Inside.Alike A B s t) Q := by
  refine outward fun s hs => ?_
  obtain ⟨hafter, hQ⟩ := h s.around hs.around
  exact ⟨⟨hs.layer, hafter⟩, hQ⟩

end Keeps

end Call

end DataLink
