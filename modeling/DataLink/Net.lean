import DataLink.Surroundings
import DataLink.Table

/-!
# The network layer

An endpoint that collects what it is sent and knows how far it is from the ground: a ground station
is no hop away from itself, any other station is one hop farther than its nearest neighbor.
-/

namespace DataLink

/-- The priority of ordinary datagrams. -/
def Priority.ordinary : Nat := 0

/-- The priority of packets that set up links. -/
def Priority.linkManagement : Nat := 255

/-- A network endpoint. -/
structure RoutingNet where
  isGround : Bool
  /-- What was received and not collected yet, with its sender, oldest first. -/
  inbox : List (Address × Datagram)
  /-- The hop count that each neighbor last reported. -/
  neighborHops : Table Address Nat
deriving DecidableEq

namespace RoutingNet

def empty (isGround : Bool) : RoutingNet := ⟨isGround, [], .empty⟩

def receive (n : RoutingNet) (datagram : Datagram) (origin : Address) : RoutingNet :=
  { n with inbox := n.inbox ++ [(origin, datagram)] }

/-- Hops to the nearest ground station. Where none is known, or it is too far, this is the highest
count. -/
def hops (n : RoutingNet) : Nat :=
  if n.isGround then 0
  else match (n.neighborHops.entries.map Prod.snd).min? with
    | some nearest => min (nearest + 1) HopCount.highest.val
    | none => HopCount.highest.val

def report (n : RoutingNet) (id : Address) (hops : Nat) : RoutingNet :=
  { n with neighborHops := n.neighborHops.insert id hops }

/-- The hop count that `id` last reported. -/
def neighborHops? (n : RoutingNet) (id : Address) : Except LayerError Nat :=
  match n.neighborHops.get? id with
  | some hops => .ok hops
  | none => .error (.unknownId id)

/-- Collects what was received. -/
def drain (n : RoutingNet) : List (Address × Datagram) × RoutingNet :=
  (n.inbox, { n with inbox := [] })

end RoutingNet

/-- Sends a datagram down, as every network layer does. -/
def Net.send {ε : Type} [RlcBelow ε] (datagram : Datagram) (dest : Address) (priority : Nat) :
    Call ε Unit :=
  RlcBelow.accept datagram dest priority

end DataLink
