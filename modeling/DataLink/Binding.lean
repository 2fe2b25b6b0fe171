import DataLink.Failure

/-!
# Bindings

Each layer sits in a *seat*. While a call runs inside a layer its state is taken out of the seat, so
a second call cannot enter before the first one ends. The host can hold a layer, which keeps calls
out as well; a layer that is dropped while it is held goes when it is released. A *binding* is the
way from one layer to its neighbor. It is wired once and is only followed from then on.
-/

namespace DataLink

/-- Where a layer is found. -/
inductive Seat (σ : Type) where
  | idle (layer : σ)
  /-- In the middle of a call. -/
  | entered
  /-- Held by the host, and put back on release if it is still to be kept. -/
  | held (layer : σ) (kept : Bool)
  | gone
deriving DecidableEq, Repr

namespace Seat

variable {σ : Type}

/-- Takes a layer out, for a caller that knows it by `name`. -/
def enter (name : String) : Seat σ → Except LayerError σ
  | idle layer => .ok layer
  | entered | held _ _ => .error (.reentrant name)
  | gone => .error (.unwired name)

/-- Puts a layer back after a call. -/
def leave (layer : σ) : Seat σ → Seat σ
  | entered => idle layer
  | other => other

/-- Holds an idle layer. -/
def hold : Seat σ → Seat σ
  | idle layer => held layer true
  | other => other

def release : Seat σ → Seat σ
  | held layer true => idle layer
  | held _ false => gone
  | other => other

/-- Drops the layer. -/
def drop : Seat σ → Seat σ
  | held layer _ => held layer false
  | _ => gone

/-- The layer, if no call is in it and nobody holds it. -/
def idle? : Seat σ → Option σ
  | idle layer => some layer
  | _ => none

/-- The layer, if it was not dropped and no call is in it. -/
def kept? : Seat σ → Option σ
  | idle layer | held layer true => some layer
  | _ => none

end Seat

/-- The way to a neighboring layer: the name it goes by, and its place once that is known. -/
structure Binding (τ : Type) where
  layer : String
  target : Option τ
deriving DecidableEq, Repr

namespace Binding

variable {σ τ : Type}

/-- A binding that leads nowhere yet. -/
def unwired (layer : String) : Binding τ := ⟨layer, none⟩

def isWired (b : Binding τ) : Bool := b.target.isSome

/-- Points the binding at a place, once. -/
def wire (b : Binding τ) (target : τ) : Except LayerError (Binding τ) :=
  match b.target with
  | some _ => .error (.alreadyWired b.layer)
  | none => .ok { b with target := some target }

/-- Takes out the layer that the binding leads to. -/
def enter (b : Binding τ) (seats : τ → Seat σ) : Except LayerError (τ × σ) :=
  match b.target with
  | some t => (seats t |>.enter b.layer).map fun layer => (t, layer)
  | none => .error (.unwired b.layer)

/-- The binding as a dump shows it. -/
def dump (b : Binding τ) : String :=
  "Binding \x7b layer: " ++ b.layer.quote ++ ", wired: " ++ toString b.isWired ++ " \x7d"

end Binding

end DataLink
