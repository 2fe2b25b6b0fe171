/-!
# Station addresses

An address names a station or one of the symbolic parties of the link. Stations have the
non-negative values; every negative value is symbolic, and four of them have a name. Where an order
shows, items stand by ascending address: `sortBy_perm` and `pairwise_sortBy` say that sorting moves
items only, and that it puts them in order.
-/

namespace DataLink

/-- Who a frame is from, or who it is for. -/
structure Address where
  val : Int
deriving DecidableEq, Repr

namespace Address

/-- No address: the value of a field that was never set. -/
def unset : Address := ⟨-1⟩

/-- Every station in reach. -/
def broadcast : Address := ⟨-2⟩

/-- The channel of position beacons. -/
def beacon : Address := ⟨-3⟩

/-- Distance-measuring equipment. -/
def dme : Address := ⟨-4⟩

instance : Inhabited Address := ⟨unset⟩

/-- The largest station address that has a place in a header. -/
def highest : Address := ⟨0x7FFFFFF⟩

/-- The address stands for no single station. -/
def isSymbolic (a : Address) : Bool := a.val < 0

/-- The address was set at all. Symbolic addresses other than `unset` count as set. -/
def isSet (a : Address) : Bool := a ≠ unset

/-- Puts an item in its place in a list that is in ascending order of a key. -/
def insertBy {α : Type} (key : α → Address) (x : α) : List α → List α
  | [] => [x]
  | y :: rest => if (key x).val ≤ (key y).val then x :: y :: rest else y :: insertBy key x rest

/-- The items in ascending order of a key. -/
def sortBy {α : Type} (key : α → Address) : List α → List α
  | [] => []
  | x :: rest => insertBy key x (sortBy key rest)

/-- Addresses in ascending order. -/
def sort (as : List Address) : List Address := sortBy id as

/-- The four symbolic names. -/
def name? (a : Address) : Option String :=
  if a = unset then some "unset"
  else if a = broadcast then some "broadcast"
  else if a = beacon then some "beacon"
  else if a = dme then some "dme"
  else none

/-- The address as messages show it: its name, or its value. -/
def text (a : Address) : String := a.name?.getD (toString a.val)

/-- The address as a dump shows it. -/
def dump (a : Address) : String :=
  "MacId(" ++ (a.name?.map String.toUpper).getD (toString a.val) ++ ")"

theorem isSet_iff {a : Address} : a.isSet = true ↔ a ≠ unset := by
  simp [isSet]

/-! ## Sorting -/

variable {α : Type} {key : α → Address}

theorem insertBy_perm (x : α) (l : List α) : (insertBy key x l).Perm (x :: l) := by
  induction l with
  | nil => exact .refl _
  | cons y rest ih =>
    rw [insertBy]
    split
    · exact .refl _
    · exact (ih.cons y).trans (.swap x y rest)

theorem sortBy_perm (l : List α) : (sortBy key l).Perm l := by
  induction l with
  | nil => exact .refl _
  | cons x rest ih => exact (insertBy_perm x _).trans (ih.cons x)

theorem pairwise_insertBy {x : α} {l : List α}
    (h : l.Pairwise fun y z => (key y).val ≤ (key z).val) :
    (insertBy key x l).Pairwise fun y z => (key y).val ≤ (key z).val := by
  induction l with
  | nil => exact List.pairwise_singleton _ _
  | cons y rest ih =>
    obtain ⟨hy, hrest⟩ := List.pairwise_cons.1 h
    rw [insertBy]
    split
    · refine List.pairwise_cons.2 ⟨fun z hz => ?_, h⟩
      rcases List.mem_cons.1 hz with rfl | hz
      · assumption
      · have := hy z hz
        omega
    · refine List.pairwise_cons.2 ⟨fun z hz => ?_, ih hrest⟩
      rcases List.mem_cons.1 ((insertBy_perm x rest).mem_iff.1 hz) with rfl | hz
      · omega
      · exact hy z hz

theorem pairwise_sortBy (l : List α) :
    (sortBy key l).Pairwise fun y z => (key y).val ≤ (key z).val := by
  induction l with
  | nil => exact List.Pairwise.nil
  | cons x rest ih => exact pairwise_insertBy ih

end Address

end DataLink
