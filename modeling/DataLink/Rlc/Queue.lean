import DataLink.Payload

/-!
# Queues with priorities

A queue serves higher priorities first and, within a priority, what came first. It is one list in
the order of service: a new item goes behind every item of its own or a higher priority. `place_perm`
and `pairwise_place` say that this adds the item and nothing else, and that it keeps the order.
-/

namespace DataLink

/-- Items in the order in which they are served, each with its priority. -/
structure PriorityQueue (α : Type) where
  items : List (Nat × α)
deriving DecidableEq

namespace PriorityQueue

variable {α : Type}

def empty : PriorityQueue α := ⟨[]⟩

instance : Inhabited (PriorityQueue α) := ⟨empty⟩

/-- Puts an item in its place in a list in the order of service. -/
def place (priority : Nat) (a : α) : List (Nat × α) → List (Nat × α)
  | [] => [(priority, a)]
  | (p, b) :: rest =>
    if priority ≤ p then (p, b) :: place priority a rest else (priority, a) :: (p, b) :: rest

def push (q : PriorityQueue α) (priority : Nat) (a : α) : PriorityQueue α :=
  ⟨place priority a q.items⟩

/-- The items, without their priorities, in the order of service. -/
def toList (q : PriorityQueue α) : List α := q.items.map Prod.snd

def size (q : PriorityQueue α) : Nat := q.items.length

def isEmpty (q : PriorityQueue α) : Bool := q.items.isEmpty

/-- The item that is served next. -/
def front? (q : PriorityQueue α) : Option α := q.items.head?.map Prod.snd

/-- The queue without the item that is served next. -/
def popFront (q : PriorityQueue α) : PriorityQueue α := ⟨q.items.tail⟩

/-- The queue, unless it is empty. -/
def nonempty? (q : PriorityQueue α) : Option (PriorityQueue α) :=
  if q.isEmpty then none else some q

/-! ## The order of service -/

theorem place_perm (priority : Nat) (a : α) (l : List (Nat × α)) :
    (place priority a l).Perm ((priority, a) :: l) := by
  induction l with
  | nil => exact .refl _
  | cons e rest ih =>
    rw [place]
    split
    · exact (ih.cons e).trans (.swap _ e rest)
    · exact .refl _

theorem pairwise_place {priority : Nat} {a : α} {l : List (Nat × α)}
    (h : l.Pairwise fun e f => f.1 ≤ e.1) :
    (place priority a l).Pairwise fun e f => f.1 ≤ e.1 := by
  induction l with
  | nil => exact List.pairwise_singleton _ _
  | cons e rest ih =>
    obtain ⟨he, hrest⟩ := List.pairwise_cons.1 h
    rw [place]
    split
    · refine List.pairwise_cons.2 ⟨fun f hf => ?_, ih hrest⟩
      rcases List.mem_cons.1 ((place_perm priority a rest).mem_iff.1 hf) with rfl | hf
      · assumption
      · exact he f hf
    · refine List.pairwise_cons.2 ⟨fun f hf => ?_, h⟩
      rcases List.mem_cons.1 hf with rfl | hf
      · simp only
        omega
      · have := he f hf
        simp only
        omega

end PriorityQueue

end DataLink
