import DataLink.Arq.SelectiveRepeat
import DataLink.Mac
import DataLink.Phy
import DataLink.Rlc.Segmenting
import DataLink.Stub

/-!
# Kinds of layers

What can sit in each place of a station, and how each kind answers the calls of its neighbors. Where
a kind has no answer of its own, it does what every layer in its place does: pass the call on, or
say that it is not supported.
-/

namespace DataLink

variable {ε : Type}

/-! ## Network layers -/

inductive NetLayer where
  | routing (n : RoutingNet)
  | stub (n : StubNet)
deriving DecidableEq

namespace NetLayer

def routing? : NetLayer → Option RoutingNet
  | routing n => some n
  | stub _ => none

def receive [Journal ε] (datagram : Datagram) (origin : Address) :
    Call (Inside NetLayer ε) Unit := do
  match ← Call.own with
  | routing n => Call.change fun _ => routing (n.receive datagram origin)
  | stub n => Stub.noteOr n.fails (.unknownId origin) (.netReceive datagram origin)

def hops : Call (Inside NetLayer ε) Nat := do
  match ← Call.own with
  | routing n => return n.hops
  | stub _ => Call.fail (.unsupported .hopCount)

def report (id : Address) (count : Nat) : Call (Inside NetLayer ε) Unit := do
  match ← Call.own with
  | routing n => Call.change fun _ => routing (n.report id count)
  | stub _ => Call.fail (.unsupported .hopReports)

def send [RlcBelow ε] (datagram : Datagram) (dest : Address) (priority : Nat) :
    Call (Inside NetLayer ε) Unit :=
  Call.outward (Net.send datagram dest priority)

end NetLayer

/-! ## RLC layers -/

inductive RlcLayer where
  | segmenting (r : SegmentingRlc)
  | stub (r : StubRlc)
deriving DecidableEq, Inhabited

namespace RlcLayer

def segmenting? : RlcLayer → Option SegmentingRlc
  | segmenting r => some r
  | stub _ => none

/-- Answers a call by the kind of the layer. -/
def byKind {α : Type} (ofSegmenting : Call (Inside SegmentingRlc ε) α)
    (ofStub : Call (Inside StubRlc ε) α) : Call (Inside RlcLayer ε) α := do
  match ← Call.own with
  | segmenting r => Call.embed segmenting r ofSegmenting
  | stub r => Call.embed stub r ofStub

def accept [Journal ε] [ArqBelow ε] (datagram : Datagram) (dest : Address) (priority : Nat) :
    Call (Inside RlcLayer ε) Unit :=
  byKind (SegmentingRlc.accept datagram dest priority) (StubRlc.accept datagram dest priority)

def request [Journal ε] (bits : Nat) (dest : Address) : Call (Inside RlcLayer ε) Packet :=
  byKind (SegmentingRlc.request bits dest) (StubRlc.request bits dest)

def requestBurst [Journal ε] (bits : Nat) (dest : Address) (frame : Nat) :
    Call (Inside RlcLayer ε) Packet :=
  byKind (SegmentingRlc.requestBurst bits dest frame) (StubRlc.request bits dest)

def receive [Journal ε] [NetAbove ε] (packet : Packet) : Call (Inside RlcLayer ε) Unit :=
  byKind (SegmentingRlc.receive packet) (StubRlc.receive packet)

def inject [Journal ε] (packet : Packet) (priority : Nat) : Call (Inside RlcLayer ε) Unit :=
  byKind (Call.change fun r => r.inject packet priority) (StubRlc.inject packet priority)

def hasMore (dest : Address) : RlcLayer → Bool
  | segmenting r => r.hasMore dest
  | stub r => !r.queue.isEmpty

def hops [NetAbove ε] : Call (Inside RlcLayer ε) Nat := Call.outward NetAbove.hops

def report [NetAbove ε] (id : Address) (count : Nat) : Call (Inside RlcLayer ε) Unit :=
  Call.outward (NetAbove.report id count)

end RlcLayer

/-! ## ARQ layers -/

inductive ArqLayer where
  | selective (a : SelectiveRepeat)
  /-- Numbers nothing and passes everything on. -/
  | passThrough
  | stub (a : StubArq)
deriving DecidableEq

namespace ArqLayer

def selective? : ArqLayer → Option SelectiveRepeat
  | selective a => some a
  | _ => none

/-- Answers a call by the kind of the layer, with one answer for the layers that keep no state. -/
def bySelective {α : Type} (ofSelective : Call (Inside SelectiveRepeat ε) α)
    (ofOther : Call ε α) : Call (Inside ArqLayer ε) α := do
  match ← Call.own with
  | selective a => Call.embed selective a ofSelective
  | passThrough | stub _ => Call.outward ofOther

def isProtected (id : Address) : ArqLayer → Bool
  | selective a => a.isProtected id
  | _ => false

def tick (slots : Nat) : ArqLayer → ArqLayer
  | selective a => selective (a.tick slots)
  | other => other

def notifyOutgoing [MacBelow ε] (bits : Nat) (dest : Address) : Call (Inside ArqLayer ε) Unit :=
  Call.outward (MacBelow.notifyOutgoing bits dest)

variable [Journal ε]

def linkUp (id : Address) : Call (Inside ArqLayer ε) Unit := do
  match ← Call.own with
  | selective a => Call.change fun _ => selective (a.linkUp id)
  | passThrough => return
  | stub a => Stub.noteOr a.fails (.unknownId id) (.arqLinkUp id)

def linkDown (id : Address) : Call (Inside ArqLayer ε) Unit := do
  match ← Call.own with
  | selective a =>
    let after ← Call.ofLayer (a.linkDown id)
    Call.change fun _ => selective after
  | passThrough => return
  | stub a => Stub.noteOr a.fails (.unknownId id) (.arqLinkDown id)

variable [RlcAbove ε]

def request (bits : Nat) (dest : Address) : Call (Inside ArqLayer ε) Packet := do
  match ← Call.own with
  | selective a => Call.embed selective a (SelectiveRepeat.request bits dest)
  | passThrough => Call.outward (RlcAbove.request bits dest)
  | stub _ =>
    Stub.note (.arqRequest bits dest)
    Call.outward (RlcAbove.request bits dest)

def requestBurst (bits : Nat) (dest : Address) (frame : Nat) :
    Call (Inside ArqLayer ε) Packet := do
  match ← Call.own with
  | selective a => Call.embed selective a (SelectiveRepeat.requestBurst bits dest frame)
  | passThrough => Call.outward (RlcAbove.requestBurst bits dest frame)
  | stub _ => request bits dest

def receive (packet : Packet) : Call (Inside ArqLayer ε) Unit := do
  match ← Call.own with
  | selective a => Call.embed selective a (SelectiveRepeat.receive packet)
  | passThrough => Call.outward (RlcAbove.receive packet)
  | stub a => Stub.noteOr a.fails (.unknownId packet.origin) (.arqReceive packet)

omit [Journal ε]

def inject (packet : Packet) : Call (Inside ArqLayer ε) Unit := Call.outward (Arq.inject packet)

def hasMore (dest : Address) : Call (Inside ArqLayer ε) Bool :=
  bySelective (SelectiveRepeat.hasMore dest) (RlcAbove.hasMore dest)

def hops : Call (Inside ArqLayer ε) Nat := Call.outward RlcAbove.hops

def report (id : Address) (count : Nat) : Call (Inside ArqLayer ε) Unit :=
  Call.outward (RlcAbove.report id count)

end ArqLayer

/-! ## MAC layers -/

inductive MacLayer where
  | slotted (m : SlotMac)
  | stub (m : StubMac)
deriving DecidableEq

namespace MacLayer

def slotted? : MacLayer → Option SlotMac
  | slotted m => some m
  | stub _ => none

def notices : MacLayer → List SentNotice
  | slotted m => m.notices
  | stub m => m.notices

def notifyOutgoing [Journal ε] (bits : Nat) (dest : Address) : Call (Inside MacLayer ε) Unit := do
  match ← Call.own with
  | slotted m => Call.change fun _ => slotted (m.notifyOutgoing bits dest)
  | stub m => Stub.noteOr m.fails (.queueFull dest) (.macNotify bits dest)

def receive [Journal ε] [ArqAbove ε] (packet : Packet) (frequency : Nat) :
    Call (Inside MacLayer ε) Unit := do
  match ← Call.own with
  | slotted m => Call.embed slotted m (SlotMac.receive packet)
  | stub m => Stub.noteOr m.fails (.unknownId packet.origin) (.macReceive packet frequency)

def passDown [PhyBelow ε] (packet : Packet) (frequency : Nat) :
    Call (Inside MacLayer ε) Unit := do
  match ← Call.own with
  | slotted m => Call.embed slotted m (SlotMac.passDown packet frequency)
  | stub m =>
    let (notices, packet) := packet.announce
    Call.change fun _ => stub { m with notices := m.notices ++ notices }
    Call.outward (PhyBelow.transmit packet frequency)

def inject [ArqAbove ε] (packet : Packet) : Call (Inside MacLayer ε) Unit :=
  Call.outward (ArqAbove.inject packet)

def datarate [PhyBelow ε] : Call (Inside MacLayer ε) Nat := Call.outward PhyBelow.datarate

end MacLayer

/-! ## PHY layers -/

inductive PhyLayer where
  | outbox (p : OutboxPhy)
  | stub (p : StubPhy)
deriving DecidableEq

namespace PhyLayer

def outbox? : PhyLayer → Option OutboxPhy
  | outbox p => some p
  | stub _ => none

def transmit [Journal ε] (packet : Packet) (frequency : Nat) : Call (Inside PhyLayer ε) Unit := do
  match ← Call.own with
  | outbox p => Call.change fun _ => outbox (p.transmit packet frequency)
  | stub p =>
    Stub.noteOr p.fails (.unsupported .stubTransmission) (.phyTransmit packet frequency)

def datarate : PhyLayer → Nat
  | outbox p => p.config.datarate
  | stub p => p.datarate

def isTransmitterIdle (slotOffset : Nat) : PhyLayer → Except LayerError Bool
  | outbox p => .ok (p.isTransmitterIdle slotOffset)
  | stub _ => .error (.unsupported .transmitterScheduling)

def isReceiverIdle (slotOffset : Nat) : PhyLayer → Except LayerError Bool
  | outbox p => .ok (p.isReceiverIdle slotOffset)
  | stub _ => .error (.unsupported .receiverScheduling)

def tune (frequency : Nat) : PhyLayer → Except LayerError PhyLayer
  | outbox p => (p.tune frequency).map outbox
  | stub _ => .error (.unsupported .receiverTuning)

def tuneTo (frequency : Nat) : Call (Inside PhyLayer ε) Unit := do
  let tuned ← Call.ofLayer ((← Call.own).tune frequency)
  Call.change fun _ => tuned

def tick (slots : Nat) : PhyLayer → PhyLayer
  | outbox p => outbox (p.tick slots)
  | other => other

def hear [MacAbove ε] (t : Transmission) : Call (Inside PhyLayer ε) Unit :=
  Call.outward (Phy.hear t)

end PhyLayer

end DataLink
