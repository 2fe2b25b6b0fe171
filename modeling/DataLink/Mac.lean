import DataLink.Neighbors
import DataLink.Surroundings

/-!
# The slotted MAC

Once per slot the MAC sends a beacon, if one is due, or one packet for the next destination of its
schedule that has anything to send. The broadcast channel and every link take turns. A link is set
up by a request and a reply, which travel on the broadcast channel; a request that is not answered
in time is sent again. A packet for another station is dropped.
-/

namespace DataLink

/-- Slots after which a link request that was not answered is sent again. -/
def linkRequestTimeout : Nat := 16

structure MacConfig where
  /-- The address of this station. -/
  id : Address
  /-- The frequency that all packets are sent on. -/
  frequency : Nat
  /-- Slots between two beacons, or 0 for none. -/
  beaconEvery : Nat
  /-- Slots after which a silent neighbor is forgotten, or 0 for never. -/
  neighborTimeout : Nat
deriving DecidableEq, Repr

instance : Inhabited MacConfig := ⟨.unset, 0, 0, 0⟩

structure SlotMac where
  config : MacConfig
  slot : Nat
  /-- The destinations that take turns, next one first. -/
  schedule : List Address
  /-- The peers whose link is established. -/
  links : List Address
  /-- The stations that are still to be asked for a link. -/
  pending : List Address
  /-- The stations that were asked for a link, and the slot in which they were. -/
  awaiting : Table Address Nat
  /-- The bits that were last said to be queued. -/
  demand : Table Address Nat
  neighbors : NeighborTable
  position : Position
  quality : PositionQuality
  /-- The parity of the last beacon. -/
  isOdd : Bool
  /-- What the watchers of sent packets were told and the host did not collect yet. -/
  notices : List SentNotice
deriving DecidableEq

namespace SlotMac

/-- A MAC without links. -/
def ofConfig (config : MacConfig) : Except InvalidStationId SlotMac :=
  if config.id.isSymbolic then .error ⟨config.id⟩
  else .ok ⟨config, 0, [.broadcast], [], [], .empty, .empty, .empty, default, default, false, []⟩

def hasLink (m : SlotMac) (id : Address) : Bool := m.links.contains id

/-- The bits that were last said to be queued for `dest`. -/
def reportedBits (m : SlotMac) (dest : Address) : Nat := (m.demand.get? dest).getD 0

/-- Sets what the next beacons say. -/
def setPosition (m : SlotMac) (position : Position) (quality : PositionQuality) : SlotMac :=
  { m with position, quality }

/-- A link to `dest` is established, asked for, or to be asked for. -/
def isLinking (m : SlotMac) (dest : Address) : Bool :=
  m.links.contains dest || m.awaiting.contains dest || m.pending.contains dest

/-- Takes note of the bits queued for `dest`, and of a link that they need. -/
def notifyOutgoing (m : SlotMac) (bits : Nat) (dest : Address) : SlotMac :=
  let noted := { m with demand := m.demand.insert dest bits }
  if dest.isSymbolic || m.isLinking dest then noted
  else { noted with pending := m.pending ++ [dest] }

/-- Forgets the neighbors that were silent for too long. -/
def forgetSilent (m : SlotMac) : SlotMac :=
  let timeout := m.config.neighborTimeout
  if 0 < timeout ∧ timeout < m.slot then
    { m with neighbors := (m.neighbors.removeUnseenSince (m.slot - timeout)).1 }
  else m

/-- The stations whose answer is overdue, by ascending address. -/
def overdue (m : SlotMac) : List Address :=
  Address.sort (m.awaiting.filter fun _ asked => linkRequestTimeout ≤ m.slot - asked).keys

/-- Has the stations whose answer is overdue asked again. -/
def renewOverdue (m : SlotMac) : SlotMac :=
  { m with
    pending := m.pending ++ m.overdue
    awaiting := m.awaiting.filter fun _ asked => m.slot - asked < linkRequestTimeout }

/-- This slot is one for a beacon. -/
def isBeaconDue (m : SlotMac) : Bool :=
  0 < m.config.beaconEvery && m.slot % m.config.beaconEvery == 0

/-- A packet of this station with one more header. -/
def control (m : SlotMac) (header : Header) : Except LayerError Packet :=
  (do (← Packet.empty.add (some (.base (.ofSource m.config.id))) none).add (some header) none :
    Except PacketError Packet).mapError .packet

/-- A packet that asks `dest` for a link, or grants it one. -/
def linkControl (m : SlotMac) (frameType : FrameType) (dest : Address) :
    Except LayerError Packet := do
  m.control (← (Header.unicastFamily? frameType dest).mapError .header)

/-- What a received packet asks of a station: the last beacon in it, and whether it asks this
station for a link, or grants it one. -/
structure Summary where
  beacon : Option BeaconHeader
  isRequest : Bool
  isReply : Bool
deriving DecidableEq

/-- What a packet asks of the station with address `id`. -/
def summarize (id : Address) (packet : Packet) : Summary where
  beacon := (packet.headers.filterMap fun
    | .beacon h => some h
    | _ => none).getLast?
  isRequest := packet.headers.any fun
    | .linkRequest h _ => h.dest = id
    | _ => false
  isReply := packet.headers.any fun
    | .linkReply h _ => h.dest = id
    | _ => false

/-! ## Calls -/

variable {ε : Type}

/-- Hands a packet to the PHY, after its watchers were told. -/
def passDown [PhyBelow ε] (packet : Packet) (frequency : Nat) : Call (Inside SlotMac ε) Unit := do
  let (notices, packet) := packet.announce
  Call.change fun m => { m with notices := m.notices ++ notices }
  Call.outward (PhyBelow.transmit packet frequency)

variable [ArqAbove ε]

/-- Asks stations for a link, and stops at the first one that cannot be asked. -/
def askEach : List Address → Call (Inside SlotMac ε) Unit
  | [] => pure ()
  | dest :: rest => do
    let packet ← Call.ofLayer ((← Call.own).linkControl .linkRequest dest)
    Call.outward (ArqAbove.inject packet)
    Call.change fun m => { m with awaiting := m.awaiting.insert dest m.slot }
    askEach rest

/-- Asks for every link that is to be asked for. -/
def requestLinks : Call (Inside SlotMac ε) Unit := do
  Call.change renewOverdue
  let m ← Call.own
  Call.change fun m => { m with pending := [] }
  askEach m.pending

/-- Turns the schedule, up to `count` times, until it comes to a destination that has anything to
send. -/
def turnSchedule : Nat → Call (Inside SlotMac ε) (Option Address)
  | 0 => return none
  | count + 1 => do
    match (← Call.own).schedule with
    | [] => return none
    | dest :: rest =>
      Call.change fun m => { m with schedule := rest ++ [dest] }
      if ← Call.outward (ArqAbove.hasMore dest) then return some dest else turnSchedule count

/-- The destination that is served next. -/
def nextDestination : Call (Inside SlotMac ε) (Option Address) := do
  turnSchedule (← Call.own).schedule.length

/-- Adds a link, if it is new. -/
def establishLink (id : Address) : Call (Inside SlotMac ε) Unit := do
  Call.change fun m => { m with
    pending := m.pending.filter fun dest => dest ≠ id
    awaiting := m.awaiting.erase id }
  if (← Call.own).hasLink id then return
  else
    Call.change fun m => { m with links := m.links ++ [id], schedule := m.schedule ++ [id] }
    Call.outward (ArqAbove.linkUp id)

/-- Tears a link down. -/
def removeLink (id : Address) : Call (Inside SlotMac ε) Unit := do
  if (← Call.own).hasLink id then
    Call.change fun m => { m with
      links := m.links.filter fun peer => peer ≠ id
      schedule := m.schedule.filter fun dest => dest ≠ id }
    Call.outward (ArqAbove.linkDown id)
  else Call.fail (.unknownId id)

/-- Takes down a beacon and reports its hop count, where anybody above wants it. -/
def onBeacon (origin : Address) (beacon : BeaconHeader) : Call (Inside SlotMac ε) Unit := do
  Call.change fun m =>
    { m with neighbors := (m.neighbors.updateFromBeacon origin beacon m.slot).1 }
  match ← Call.attempt (Call.outward (ArqAbove.report origin beacon.hops.val)) with
  | .ok _ | .error (.unsupported _) => return
  | .error e => Call.fail e

/-- Grants a link. A link that exists is granted again, as the peer may have missed the answer. -/
def onLinkRequest (origin : Address) : Call (Inside SlotMac ε) Unit := do
  establishLink origin
  let reply ← Call.ofLayer ((← Call.own).linkControl .linkReply origin)
  Call.outward (ArqAbove.inject reply)

/-- Takes a packet from the PHY. -/
def receive (packet : Packet) : Call (Inside SlotMac ε) Unit := do
  let origin := packet.origin
  let id := (← Call.own).config.id
  if !origin.isSet || origin == id then return
  else
    Call.change fun m => { m with neighbors := (m.neighbors.markSeen origin m.slot).1 }
    let summary := summarize id packet
    if let some beacon := summary.beacon then onBeacon origin beacon
    if summary.isRequest then onLinkRequest origin
    if summary.isReply then establishLink origin
    if packet.dest.isSymbolic || packet.dest == id then Call.outward (ArqAbove.receive packet)

variable [PhyBelow ε]

/-- Sends a beacon. Where no hop count is kept, it says the highest. -/
def sendBeacon : Call (Inside SlotMac ε) Unit := do
  let hops ← match ← Call.attempt (Call.outward ArqAbove.hops) with
    | .ok hops => pure (HopCount.clamp hops)
    | .error (.unsupported _) => pure .highest
    | .error e => Call.fail e
  Call.change fun m => { m with isOdd := !m.isOdd }
  let m ← Call.own
  let packet ← Call.ofLayer (m.control (.beacon ⟨m.position, m.isOdd, hops, m.quality⟩))
  passDown packet m.config.frequency

/-- Serves one destination: the packet built for it is signed and sent, unless it is empty or has
nothing but a base header. -/
def serve (dest : Address) : Call (Inside SlotMac ε) Unit := do
  let bits := Word.clamp (← Call.outward PhyBelow.datarate)
  let packet ← Call.outward (ArqAbove.request bits dest)
  if packet.size ≤ 1 then return
  else
    let config := (← Call.own).config
    passDown (packet.sign config.id) config.frequency

/-- Lets one slot pass, and uses it. -/
def update : Call (Inside SlotMac ε) Unit := do
  Call.change fun m => { m with slot := m.slot + 1 }
  Call.outward (ArqAbove.tick 1)
  Call.change forgetSilent
  requestLinks
  if (← Call.own).isBeaconDue then sendBeacon
  else match ← nextDestination with
    | some dest => serve dest
    | none => return

end SlotMac

end DataLink
