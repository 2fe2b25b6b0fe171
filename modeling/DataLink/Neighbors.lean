import DataLink.Failure
import DataLink.Table

/-!
# Neighbors

The stations heard recently, and what their beacons said. A beacon makes an entry or replaces it;
other traffic only moves the slot in which its sender was last seen.
-/

namespace DataLink

/-- What is known about a station in reach. -/
structure Neighbor where
  position : Position
  quality : PositionQuality
  hops : HopCount
  /-- The slot in which anything was last heard from it. -/
  lastSeen : Nat
deriving DecidableEq, Repr

/-- The stations in reach. -/
structure NeighborTable where
  entries : Table Address Neighbor
deriving DecidableEq

namespace NeighborTable

def empty : NeighborTable := ⟨.empty⟩

instance : Inhabited NeighborTable := ⟨empty⟩

def get? (t : NeighborTable) (id : Address) : Except LayerError Neighbor :=
  match t.entries.get? id with
  | some n => .ok n
  | none => .error (.unknownId id)

/-- Takes down a beacon that was heard in `slot`; the answer says whether its sender is new. -/
def updateFromBeacon (t : NeighborTable) (id : Address) (beacon : BeaconHeader) (slot : Nat) :
    NeighborTable × Bool :=
  (⟨t.entries.insert id ⟨beacon.position, beacon.quality, beacon.hops, slot⟩⟩,
    !t.entries.contains id)

/-- Takes down that a known station was heard in `slot`; the answer says whether it is known. -/
def markSeen (t : NeighborTable) (id : Address) (slot : Nat) : NeighborTable × Bool :=
  match t.entries.get? id with
  | some n => (⟨t.entries.insert id { n with lastSeen := max n.lastSeen slot }⟩, true)
  | none => (t, false)

/-- Forgets the stations last seen before `slot`, and lists them. -/
def removeUnseenSince (t : NeighborTable) (slot : Nat) : NeighborTable × List Address :=
  (⟨t.entries.filter fun _ n => slot ≤ n.lastSeen⟩,
    (t.entries.filter fun _ n => n.lastSeen < slot).keys)

def size (t : NeighborTable) : Nat := t.entries.size

def isEmpty (t : NeighborTable) : Bool := t.entries.isEmpty

/-- All entries, by ascending address. -/
def toList (t : NeighborTable) : List (Address × Neighbor) :=
  Address.sortBy Prod.fst t.entries.entries

end NeighborTable

end DataLink
