import DataLink.Net

/-!
# Stub layers

Stubs stand in for a layer's neighbors, so that the layer can be looked at by itself. A stub does
only what every layer of its kind must do. It notes each call in a journal, and it can be told to
refuse calls, which it does after noting them.
-/

namespace DataLink

/-- A call that a stub was given. -/
inductive JournalEntry where
  | netReceive (datagram : Datagram) (origin : Address)
  | rlcSend (datagram : Datagram) (dest : Address) (priority : Nat)
  | rlcRequest (bits : Nat) (dest : Address)
  | rlcReceive (packet : Packet)
  | rlcInject (priority : Nat)
  | arqRequest (bits : Nat) (dest : Address)
  | arqReceive (packet : Packet)
  | arqLinkUp (id : Address)
  | arqLinkDown (id : Address)
  | macNotify (bits : Nat) (dest : Address)
  | macReceive (packet : Packet) (frequency : Nat)
  | phyTransmit (packet : Packet) (frequency : Nat)
deriving DecidableEq

/-- The packet that an entry shows. -/
def JournalEntry.packet? : JournalEntry → Option Packet
  | rlcReceive p | arqReceive p | macReceive p _ | phyTransmit p _ => some p
  | _ => none

/-- Surroundings that keep a journal. -/
class Journal (ε : Type) where
  note (entry : JournalEntry) : ε → ε

namespace Stub

variable {σ ε : Type}

/-- Notes a call. A packet is noted with its length, which has to fit its word. -/
def note [Journal ε] (entry : JournalEntry) : Call (Inside σ ε) Unit := do
  if let some packet := entry.packet? then
    let _ ← Call.ofExcept packet.bits
  Call.outward (modify (Journal.note entry))

/-- Notes a call and refuses it if told to. -/
def noteOr [Journal ε] (fails : Bool) (e : LayerError) (entry : JournalEntry) :
    Call (Inside σ ε) Unit := do
  note entry
  if fails then Call.fail e

end Stub

/-- A network layer that keeps nothing. -/
structure StubNet where
  fails : Bool
deriving DecidableEq, Repr

/-- An RLC whose packets are the ones it is given. -/
structure StubRlc where
  fails : Bool
  queue : List Packet
deriving DecidableEq

namespace StubRlc

variable {ε : Type} [Journal ε]

/-- Passes the demand on and forgets the datagram. -/
def accept [ArqBelow ε] (datagram : Datagram) (dest : Address) (priority : Nat) :
    Call (Inside StubRlc ε) Unit := do
  Stub.note (.rlcSend datagram dest priority)
  Call.outward (ArqBelow.notifyOutgoing datagram.bits dest)

/-- Takes the front of the queue, whatever is asked for. -/
def request (bits : Nat) (dest : Address) : Call (Inside StubRlc ε) Packet := do
  Stub.noteOr (← Call.own).fails (.unknownId dest) (.rlcRequest bits dest)
  match (← Call.own).queue with
  | [] => return .empty
  | packet :: rest =>
    Call.change fun r => { r with queue := rest }
    return packet

def receive (packet : Packet) : Call (Inside StubRlc ε) Unit := do
  Stub.noteOr (← Call.own).fails (.unknownId packet.origin) (.rlcReceive packet)

def inject (packet : Packet) (priority : Nat) : Call (Inside StubRlc ε) Unit := do
  Stub.note (.rlcInject priority)
  Call.change fun r => { r with queue := r.queue ++ [packet] }

end StubRlc

/-- An ARQ that hands nothing up. -/
structure StubArq where
  fails : Bool
deriving DecidableEq, Repr

/-- A MAC that only listens. -/
structure StubMac where
  fails : Bool
  /-- What the watchers of sent packets were told. -/
  notices : List SentNotice
deriving DecidableEq

/-- A PHY without a radio. -/
structure StubPhy where
  fails : Bool
  datarate : Nat
deriving DecidableEq, Repr

end DataLink
