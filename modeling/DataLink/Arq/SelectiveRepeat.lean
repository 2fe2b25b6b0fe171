import DataLink.Arq.Link
import DataLink.Net

/-!
# Selective repeat

Every packet with data for a station is numbered and kept until the peer acknowledges it, and tells
the peer what has been received from it. Received frames are handed up strictly in order. When a
packet is asked for, frames that have to be sent again go first; an acknowledgement that is owed
travels with the next frame, or in a header of its own if there is nothing else to send.
-/

namespace DataLink

structure ArqConfig where
  /-- How many frames may be unacknowledged, and how far apart numbers may be to be compared. -/
  windowSize : Nat
  /-- Frames for stations are numbered and acknowledged. -/
  protectUnicast : Bool
  /-- Slots after which a frame is sent again unasked; 0 counts as 1. -/
  resendAfter : Nat
deriving DecidableEq, Repr

namespace ArqConfig

instance : Inhabited ArqConfig := ⟨64, true, 16⟩

def check (c : ArqConfig) : Except InvalidWindow Unit :=
  if c.windowSize = 0 ∨ SequenceNumber.widestWindow < c.windowSize then .error ⟨c.windowSize⟩
  else .ok ()

end ArqConfig

/-- Slots are counted in a word of 64 bits. -/
def lastSlot : Nat := 0xFFFFFFFFFFFFFFFF

structure SelectiveRepeat where
  config : ArqConfig
  slot : Nat
  links : Table Address Link
deriving DecidableEq

namespace SelectiveRepeat

def ofConfig (config : ArqConfig) : Except InvalidWindow SelectiveRepeat := do
  config.check
  return ⟨config, 0, .empty⟩

/-- Frames for `id` are numbered and acknowledged. -/
def isProtected (a : SelectiveRepeat) (id : Address) : Bool :=
  a.config.protectUnicast && !id.isSymbolic

/-- The slot from which on a frame sent now is sent again unasked. -/
def resendAt (a : SelectiveRepeat) : Nat := min (a.slot + max a.config.resendAfter 1) lastSlot

/-- The link to `id`; a fresh one if there is none. -/
def link (a : SelectiveRepeat) (id : Address) : Link := (a.links.get? id).getD .fresh

def setLink (a : SelectiveRepeat) (id : Address) (l : Link) : SelectiveRepeat :=
  { a with links := a.links.insert id l }

def knownLink? (a : SelectiveRepeat) (id : Address) : Except LayerError Link :=
  match a.links.get? id with
  | some l => .ok l
  | none => .error (.unknownId id)

/-- How many frames for `id` are not acknowledged. -/
def numUnacked (a : SelectiveRepeat) (id : Address) : Except LayerError Nat :=
  (a.knownLink? id).map fun l => l.unacked.length

/-- The next number expected from `id`. -/
def nextExpected (a : SelectiveRepeat) (id : Address) : Except LayerError SequenceNumber :=
  (a.knownLink? id).map Link.nextExpected

/-- Lets time pass. -/
def tick (a : SelectiveRepeat) (slots : Nat) : SelectiveRepeat :=
  { a with slot := min (a.slot + slots) lastSlot }

/-- Takes note of a new link. One that is known stays as it is. -/
def linkUp (a : SelectiveRepeat) (id : Address) : SelectiveRepeat := a.setLink id (a.link id)

/-- Forgets a link. -/
def linkDown (a : SelectiveRepeat) (id : Address) : Except LayerError SelectiveRepeat := do
  let _ ← a.knownLink? id
  return { a with links := a.links.erase id }

/-- Sends a frame again to `dest`, if there is one to send and it has at most `bits` bits. -/
def resend (a : SelectiveRepeat) (bits : Nat) (dest : Address) :
    Except Fault (Option (Packet × SelectiveRepeat)) :=
  match a.links.get? dest with
  | none => .ok none
  | some l => do
    let found ← l.resend a.config.windowSize a.slot a.resendAt bits
    return found.map fun (packet, after) => (packet, a.setLink dest after)

/-- Adds an acknowledgement to a packet without data, if one is owed and there is room. -/
def acknowledge (a : SelectiveRepeat) (packet : Packet) (bits : Nat) (dest : Address) :
    Except Fault (Packet × SelectiveRepeat) :=
  let l := a.link dest
  if l.isAckPending && !packet.isEmpty then do
    if bits < (← checkedSum (← packet.bits) Width.unicast) then return (packet, a.setLink dest l)
    else
      let h ← (l.ackHeader dest a.config.windowSize).mapError fun e => .layer (.header e)
      let packet ← (packet.add (some (.unicast h)) none).mapError fun e => .layer (.packet e)
      return (packet, a.setLink dest { l with isAckPending := false })
  else .ok (packet, a.setLink dest l)

/-- Numbers a packet with data, and lets one without carry an acknowledgement. -/
def sequence (a : SelectiveRepeat) (packet : Packet) (bits : Nat) (dest : Address) :
    Except Fault (Packet × SelectiveRepeat) :=
  if packet.unicastHeaders.isEmpty then a.acknowledge packet bits dest
  else
    let (numbered, l) := (a.link dest).send packet a.config.windowSize a.resendAt
    .ok (numbered, a.setLink dest l)

/-- Takes in a frame from `origin`: what it acknowledges, and its content if it has a number. The
result is what can be handed up. -/
def takeIn (a : SelectiveRepeat) (origin : Address) (h : UnicastHeader) (packet : Packet) :
    List Packet × SelectiveRepeat :=
  let window := a.config.windowSize
  let l := (a.link origin).onAck h.nextExpected h.rejects window
  if h.seq.isSet then
    let (packets, l) := { l with isAckPending := true }.accept h.seq packet window
    (packets, a.setLink origin l)
  else ([], a.setLink origin l)

/-! ## Calls -/

variable {ε : Type} [RlcAbove ε]

/-- Builds the packet for one frame of a burst. -/
def requestBurst (bits : Nat) (dest : Address) (frame : Nat) :
    Call (Inside SelectiveRepeat ε) Packet := do
  let a ← Call.own
  if a.isProtected dest then
    match ← Call.ofExcept (a.resend bits dest) with
    | some (packet, after) =>
      Call.change fun _ => after
      return packet
    | none =>
      let packet ← Call.outward (RlcAbove.requestBurst bits dest frame)
      let (packet, after) ← Call.ofExcept (a.sequence packet bits dest)
      Call.change fun _ => after
      return packet
  else Call.outward (RlcAbove.requestBurst bits dest frame)

/-- Builds the next packet. -/
def request (bits : Nat) (dest : Address) : Call (Inside SelectiveRepeat ε) Packet :=
  requestBurst bits dest 0

/-- Hands up packets, until one is refused. -/
def handUp : List Packet → Call (Inside SelectiveRepeat ε) Unit
  | [] => pure ()
  | packet :: rest => do
    Call.outward (RlcAbove.receive packet)
    handUp rest

/-- Takes a packet from below. One without ARQ fields, or without a sender, goes straight up. -/
def receive (packet : Packet) : Call (Inside SelectiveRepeat ε) Unit := do
  match packet.unicastHeaders.find? UnicastHeader.useArq with
  | some h =>
    if packet.origin.isSet then
      let a ← Call.own
      let (packets, after) := a.takeIn packet.origin h packet
      Call.change fun _ => after
      handUp packets
    else Call.outward (RlcAbove.receive packet)
  | none => Call.outward (RlcAbove.receive packet)

/-- Anything is to be sent to `dest`, here or above. -/
def hasMore (dest : Address) : Call (Inside SelectiveRepeat ε) Bool := do
  let a ← Call.own
  match a.links.get? dest with
  | some l =>
    if l.isOwing a.config.windowSize a.slot then return true
    else Call.outward (RlcAbove.hasMore dest)
  | none => Call.outward (RlcAbove.hasMore dest)

end SelectiveRepeat

/-- Hands a control packet up, as every ARQ does. -/
def Arq.inject {ε : Type} [RlcAbove ε] (packet : Packet) : Call ε Unit :=
  RlcAbove.inject packet Priority.linkManagement

end DataLink
