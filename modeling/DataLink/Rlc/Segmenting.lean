import DataLink.Surroundings
import DataLink.Rlc.Cut
import DataLink.Rlc.Reassembly

/-!
# The segmenting RLC

Datagrams are queued per destination and cut into segments when the layer below asks for a packet.
Every packet starts with a base header for the MAC to fill in. Injected control packets are kept
apart and go first, at the start of a burst; those that set up links travel on the broadcast channel,
whoever they are for.
-/

namespace DataLink

/-- An RLC with a limit on the datagrams queued for one destination. -/
structure SegmentingRlc where
  maxQueued : Nat
  queues : Table Address (PriorityQueue Outgoing)
  injected : Table Address (PriorityQueue Packet)
  streams : Reassembly
deriving DecidableEq

namespace SegmentingRlc

def empty (maxQueued : Nat) : SegmentingRlc := ⟨maxQueued, .empty, .empty, .empty⟩

instance : Inhabited SegmentingRlc := ⟨empty 256⟩

/-- The datagrams queued for `dest`. -/
def queue (r : SegmentingRlc) (dest : Address) : PriorityQueue Outgoing :=
  (r.queues.get? dest).getD .empty

/-- The control packets that wait under `key`. -/
def injectedFor (r : SegmentingRlc) (key : Address) : PriorityQueue Packet :=
  (r.injected.get? key).getD .empty

def numQueued (r : SegmentingRlc) (dest : Address) : Nat := (r.queue dest).size

/-- The bits queued for `dest`, up to the highest count. -/
def queuedBits (r : SegmentingRlc) (dest : Address) : Nat :=
  Word.clamp (Word.total ((r.queue dest).toList.map Outgoing.left))

/-- Anything waits for `dest`. -/
def hasMore (r : SegmentingRlc) (dest : Address) : Bool :=
  r.queues.contains dest || r.injected.contains dest

/-- Puts a datagram at the end of its queue. -/
def enqueue (r : SegmentingRlc) (datagram : Datagram) (dest : Address) (priority : Nat) :
    SegmentingRlc :=
  { r with queues := r.queues.insert dest ((r.queue dest).push priority (.fresh datagram)) }

/-! ## Packets -/

/-- Where an injected packet waits. -/
def injectionKey (packet : Packet) : Address :=
  if packet.contains .linkRequest || packet.contains .linkReply then .broadcast else packet.dest

/-- Queues a control packet. -/
def inject (r : SegmentingRlc) (packet : Packet) (priority : Nat) : SegmentingRlc :=
  let key := injectionKey packet
  { r with injected := r.injected.insert key ((r.injectedFor key).push priority packet) }

/-- Takes out the control packet that goes next to `dest`, if it has at most `bits` bits. -/
def popInjected (r : SegmentingRlc) (bits : Nat) (dest : Address) :
    Except Fault (Option (Packet × SegmentingRlc)) :=
  match (r.injectedFor dest).front? with
  | none => .ok none
  | some packet => do
    if bits < (← packet.bits) then return none
    else
      let rest := (r.injectedFor dest).popFront
      return some (packet, { r with injected := r.injected.set dest rest.nonempty? })

/-- The width of the header that a segment for `dest` is given. -/
def headerWidth (dest : Address) : Nat :=
  if dest.isSymbolic then Width.broadcast else Width.unicast

/-- The header of a segment for `dest`. -/
def segmentHeader (dest : Address) (fragment : Fragment) : Except LayerError Header :=
  if dest = .broadcast ∨ dest = .beacon then .ok (.broadcast fragment)
  else match UnicastHeader.to? dest with
    | .ok h => .ok (.unicast { h with fragment })
    | .error e => .error (.header e)

/-- Adds a message for each segment. -/
def addPieces (dest : Address) : List (Fragment × Segment) → Packet → Except LayerError Packet
  | [], packet => .ok packet
  | (fragment, segment) :: rest, packet => do
    let header ← segmentHeader dest fragment
    let packet ← (packet.add (some header) (some (.segment segment))).mapError .packet
    addPieces dest rest packet

/-- A packet with nothing but a base header that is still to be filled in. -/
def blank : Packet := .ofMessages [⟨some (.base default), none⟩]

/-- Fills a packet of at most `bits` bits with segments for `dest`. -/
def fill (r : SegmentingRlc) (bits : Nat) (dest : Address) :
    Except LayerError (Packet × SegmentingRlc) := do
  let (pieces, queued) := cut (headerWidth dest) (bits - Width.base) (r.queue dest).items
  let packet ← addPieces dest pieces blank
  return (packet, { r with queues := r.queues.set dest (PriorityQueue.mk queued).nonempty? })

/-! ## Calls -/

variable {ε : Type}

/-- Takes a datagram from above. Nothing is queued unless the layers below take note of the demand. -/
def accept [ArqBelow ε] (datagram : Datagram) (dest : Address) (priority : Nat) :
    Call (Inside SegmentingRlc ε) Unit := do
  if dest = .unset ∨ dest = .dme then Call.fail (.unknownId dest)
  else
    let r ← Call.own
    if r.maxQueued ≤ r.numQueued dest then Call.fail (.queueFull dest)
    else
      let demand := Word.clamp (r.queuedBits dest + datagram.bits)
      Call.outward (ArqBelow.notifyOutgoing demand dest)
      Call.change fun r => r.enqueue datagram dest priority

/-- Builds the packet for one frame of a burst. Control packets only go out in the first frame. -/
def requestBurst (bits : Nat) (dest : Address) (frame : Nat) :
    Call (Inside SegmentingRlc ε) Packet := do
  if bits < Width.base then return .empty
  else
    let r ← Call.own
    let control ← if frame = 0 then Call.ofExcept (r.popInjected bits dest) else pure none
    let (packet, r) ← match control with
      | some served => pure served
      | none => Call.ofLayer (r.fill bits dest)
    Call.change fun _ => r
    return packet

/-- Builds the next packet. -/
def request (bits : Nat) (dest : Address) : Call (Inside SegmentingRlc ε) Packet :=
  requestBurst bits dest 0

/-- Hands up datagrams, until one is refused. -/
def handUp [NetAbove ε] (origin : Address) : List Datagram → Call (Inside SegmentingRlc ε) Unit
  | [] => pure ()
  | d :: rest => do
    Call.outward (NetAbove.receive d origin)
    handUp origin rest

/-- Takes a packet from below and hands up the datagrams that it completes. -/
def receive [NetAbove ε] (packet : Packet) : Call (Inside SegmentingRlc ε) Unit := do
  let r ← Call.own
  let segments := packet.messages.filterMap Message.segment?
  let (complete, streams) ← Call.ofExcept (Reassembly.absorb packet.origin segments r.streams)
  Call.change fun r => { r with streams }
  handUp packet.origin complete

end SegmentingRlc

end DataLink
