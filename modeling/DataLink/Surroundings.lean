import DataLink.Call

/-!
# Surroundings

What a layer may ask of its surroundings, one class for each neighbor and direction. Going up, the
MAC asks the ARQ, the ARQ the RLC and the RLC the network layer; going down, the RLC tells the ARQ
and the ARQ the MAC how much is queued, and the MAC hands packets to the PHY. The layers are written
against these classes only, so each can be studied over any surroundings.
-/

namespace DataLink

/-- The network layer, as the RLC sees it. -/
class NetAbove (ε : Type) where
  /-- Hands up a datagram that `origin` sent. -/
  receive (datagram : Datagram) (origin : Address) : Call ε Unit
  /-- Hops from here to the nearest ground station. -/
  hops : Call ε Nat
  /-- Notes how many hops `id` is from its nearest ground station. -/
  report (id : Address) (hops : Nat) : Call ε Unit

/-- The RLC, as the ARQ sees it. -/
class RlcAbove (ε : Type) where
  /-- Builds the next packet for `dest`, of at most `bits` bits. -/
  request (bits : Nat) (dest : Address) : Call ε Packet
  /-- Builds the packet for one frame of a burst. -/
  requestBurst (bits : Nat) (dest : Address) (frame : Nat) : Call ε Packet
  receive (packet : Packet) : Call ε Unit
  /-- Queues a control packet that goes past the datagram queues. -/
  inject (packet : Packet) (priority : Nat) : Call ε Unit
  /-- Anything waits for `dest`. -/
  hasMore (dest : Address) : Call ε Bool
  hops : Call ε Nat
  report (id : Address) (hops : Nat) : Call ε Unit

/-- The RLC, as the network layer sees it. -/
class RlcBelow (ε : Type) where
  /-- Queues a datagram for `dest`. -/
  accept (datagram : Datagram) (dest : Address) (priority : Nat) : Call ε Unit

/-- The ARQ, as the MAC sees it. -/
class ArqAbove (ε : Type) where
  request (bits : Nat) (dest : Address) : Call ε Packet
  receive (packet : Packet) : Call ε Unit
  inject (packet : Packet) : Call ε Unit
  /-- A link to `id` is up. -/
  linkUp (id : Address) : Call ε Unit
  /-- The link to `id` is down. -/
  linkDown (id : Address) : Call ε Unit
  hasMore (dest : Address) : Call ε Bool
  /-- Lets time pass. -/
  tick (slots : Nat) : Call ε Unit
  hops : Call ε Nat
  report (id : Address) (hops : Nat) : Call ε Unit

/-- The ARQ, as the RLC sees it. -/
class ArqBelow (ε : Type) where
  /-- Says that `bits` bits are queued for `dest`. -/
  notifyOutgoing (bits : Nat) (dest : Address) : Call ε Unit

/-- The MAC, as the PHY sees it. -/
class MacAbove (ε : Type) where
  receive (packet : Packet) (frequency : Nat) : Call ε Unit

/-- The MAC, as the ARQ sees it. -/
class MacBelow (ε : Type) where
  notifyOutgoing (bits : Nat) (dest : Address) : Call ε Unit

/-- The PHY, as the MAC sees it. -/
class PhyBelow (ε : Type) where
  transmit (packet : Packet) (frequency : Nat) : Call ε Unit
  /-- Bits that fit in one slot. -/
  datarate : Call ε Nat

end DataLink
