import DataLink.Failure

/-!
# Calls

A call reads and changes a state and may fail. What it changed before it failed stays changed, so
the state comes back in either case. Besides the failures of the layers there is one more way to
end: a count of bits that does not fit its word. No layer recovers from that.

A layer is written against its surroundings: its calls have the state `Inside σ ε`, the layer's own
state `σ` and whatever lies around it, and it reaches its neighbors with `outward`. What a call does
to a state is read off by `bind_apply` and one equation for each of the calls below.
-/

namespace DataLink

/-- How a call ends early. -/
inductive Fault where
  | layer (e : LayerError)
  /-- A count of bits does not fit its word. -/
  | overflow
deriving DecidableEq, Repr

/-- A computation on a state `σ` that may fail and keeps the state when it does. -/
abbrev Call (σ : Type) := ExceptT Fault (StateM σ)

/-- A layer and what lies around it. -/
structure Inside (σ ε : Type) where
  layer : σ
  around : ε

namespace Call

variable {σ τ ε α β : Type}

/-- Fails as a layer. -/
def fail (e : LayerError) : Call σ α := throw (.layer e)

/-- Takes over a result that was computed without the state. -/
def ofExcept : Except Fault α → Call σ α
  | .ok a => pure a
  | .error e => throw e

/-- Takes over a result that fails as a layer. -/
def ofLayer : Except LayerError α → Call σ α
  | .ok a => pure a
  | .error e => fail e

/-- Runs a call and hands its failure over as a value; an overflow still ends everything. -/
def attempt (step : Call σ α) : Call σ (Except LayerError α) := fun s =>
  match step s with
  | (.ok a, s) => (.ok (.ok a), s)
  | (.error (.layer e), s) => (.ok (.error e), s)
  | (.error .overflow, s) => (.error .overflow, s)

/-- The layer's own state. -/
def own : Call (Inside σ ε) σ := return (← get).layer

/-- Changes the layer's own state. -/
def change (f : σ → σ) : Call (Inside σ ε) Unit :=
  modify fun s => { s with layer := f s.layer }

/-- Calls out of the layer. -/
def outward (step : Call ε α) : Call (Inside σ ε) α := fun s =>
  match step s.around with
  | (r, around) => (r, { s with around })

/-- Runs a call of one kind of layer as a call of a type of layers that has it as a case. -/
def embed (into : σ → τ) (own : σ) (step : Call (Inside σ ε) α) : Call (Inside τ ε) α := fun s =>
  match step ⟨own, s.around⟩ with
  | (r, after) => (r, ⟨into after.layer, after.around⟩)

/-! ## What calls do to a state -/

theorem bind_apply (step : Call σ α) (next : α → Call σ β) (s : σ) :
    (step >>= next) s = match step s with
      | (.ok a, t) => next a t
      | (.error e, t) => (.error e, t) := by
  simp only [bind, ExceptT.bind, ExceptT.mk, StateT.bind]
  obtain ⟨r, t⟩ := step s
  cases r <;> rfl

@[simp] theorem pure_apply (a : α) (s : σ) : (pure a : Call σ α) s = (.ok a, s) := rfl

@[simp] theorem fail_apply (e : LayerError) (s : σ) :
    (fail e : Call σ α) s = (.error (.layer e), s) := rfl

@[simp] theorem ofExcept_apply (r : Except Fault α) (s : σ) : ofExcept r s = (r, s) := by
  cases r <;> rfl

@[simp] theorem own_apply (s : Inside σ ε) : own s = (.ok s.layer, s) := rfl

@[simp] theorem change_apply (f : σ → σ) (s : Inside σ ε) :
    change f s = (.ok (), { s with layer := f s.layer }) := rfl

theorem outward_apply (step : Call ε α) (s : Inside σ ε) :
    outward step s = ((step s.around).1, { s with around := (step s.around).2 }) := rfl

end Call

/-- A sum of bits, as the word that has to hold it. -/
def checkedSum (a b : Nat) : Except Fault Nat :=
  if Word.fits (a + b) then .ok (a + b) else .error .overflow

/-- The length of a packet, as the word that has to hold it. -/
def Packet.bits (p : Packet) : Except Fault Nat :=
  if Word.fits p.length then .ok p.length else .error .overflow

end DataLink
