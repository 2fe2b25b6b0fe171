import DataLink.Surroundings

/-!
# The physical layer

A PHY that leaves its transmissions in an outbox for the host to deliver. Receivers are tuned for
one slot at a time: when time passes, they and the transmitter are free again.
-/

namespace DataLink

structure PhyConfig where
  /-- Bits that fit in one slot. -/
  datarate : Nat
  /-- How many receivers can be tuned at the same time. -/
  receivers : Nat
deriving DecidableEq, Repr

instance : Inhabited PhyConfig := ⟨800, 2⟩

/-- A packet given to the radio. -/
structure Transmission where
  packet : Packet
  frequency : Nat
deriving DecidableEq

structure OutboxPhy where
  config : PhyConfig
  /-- What was transmitted and not collected yet, oldest first. -/
  outbox : List Transmission
  /-- The frequencies of the receivers that are tuned. -/
  tuned : List Nat
  /-- Something was transmitted in the current slot. -/
  isTransmitting : Bool
deriving DecidableEq

namespace OutboxPhy

def ofConfig (config : PhyConfig) : OutboxPhy := ⟨config, [], [], false⟩

def transmit (p : OutboxPhy) (packet : Packet) (frequency : Nat) : OutboxPhy :=
  { p with outbox := p.outbox ++ [⟨packet, frequency⟩], isTransmitting := true }

/-- The transmitter is free some slots from now. Only the current slot is ever taken. -/
def isTransmitterIdle (p : OutboxPhy) (slotOffset : Nat) : Bool :=
  0 < slotOffset || !p.isTransmitting

/-- A receiver is free some slots from now. -/
def isReceiverIdle (p : OutboxPhy) (slotOffset : Nat) : Bool :=
  0 < slotOffset || p.tuned.length < p.config.receivers

/-- Tunes a free receiver. -/
def tune (p : OutboxPhy) (frequency : Nat) : Except LayerError OutboxPhy :=
  if p.tuned.length < p.config.receivers then .ok { p with tuned := p.tuned ++ [frequency] }
  else .error (.receiversExhausted p.config.receivers)

/-- Lets time pass. -/
def tick (p : OutboxPhy) (slots : Nat) : OutboxPhy :=
  if slots = 0 then p else { p with tuned := [], isTransmitting := false }

/-- Collects what was transmitted. -/
def drain (p : OutboxPhy) : List Transmission × OutboxPhy := (p.outbox, { p with outbox := [] })

end OutboxPhy

/-- Hands what the radio hears to the layer above, as every PHY does. -/
def Phy.hear {ε : Type} [MacAbove ε] (t : Transmission) : Call ε Unit :=
  MacAbove.receive t.packet t.frequency

end DataLink
