import DataLink.Header
import DataLink.Payload

/-!
# Packets

A packet is a list of messages, led by a base header. `Packet.checkNext` is the grammar: it says which
header may follow the ones that are already there. Messages without a header may stand anywhere.
A packet may also be *watched*: when it leaves the station, every watcher gets a notice.
-/

namespace DataLink

/-- A header and what it leads; either may be missing. -/
structure Message where
  header : Option Header
  payload : Option Payload
deriving DecidableEq, Inhabited

/-- The bits that the message takes up. -/
def Message.length (m : Message) : Nat :=
  (m.header.elim 0 Header.bits) + (m.payload.elim 0 Payload.bits)

/-- Somebody to be told when a packet is sent, and how often that has happened. -/
structure Watcher where
  tag : String
  calls : Nat
deriving DecidableEq, Repr

/-- What a watcher is told: how often it has been told now, and the shape of the packet. -/
structure SentNotice where
  tag : String
  calls : Nat
  messages : Nat
  dest : Address
deriving DecidableEq, Repr

/-- The unit that is sent in one slot. -/
structure Packet where
  messages : List Message
  watchers : List Watcher
deriving DecidableEq

/-- Why a packet cannot be changed as asked. -/
inductive PacketError where
  | firstHeaderNotBase (frameType : FrameType)
  | duplicateBase
  | beaconNotFirst
  | broadcastAfterUnicast
  | conflictingDestination (existing new : Address)
  | invalidDestination (dest : Address)
  | indexOutOfRange (index size : Nat)
deriving DecidableEq, Repr

def PacketError.text : PacketError → String
  | .firstHeaderNotBase frameType => "first header must be base, got " ++ frameType.text
  | .duplicateBase => "packet already has a base header"
  | .beaconNotFirst => "beacon must precede all other addressed headers"
  | .broadcastAfterUnicast => "broadcast cannot follow a unicast header"
  | .conflictingDestination existing new =>
    "packet already addressed to " ++ existing.text ++ ", got " ++ new.text
  | .invalidDestination dest => "invalid unicast destination " ++ dest.text
  | .indexOutOfRange index size =>
    "index " ++ toString index ++ " out of range for packet of " ++ toString size ++ " messages"

namespace Packet

def empty : Packet := ⟨[], []⟩

instance : Inhabited Packet := ⟨empty⟩

/-- A packet that nobody watches. -/
def ofMessages (messages : List Message) : Packet := ⟨messages, []⟩

/-! ## Contents -/

def size (p : Packet) : Nat := p.messages.length

def isEmpty (p : Packet) : Bool := p.messages.isEmpty

/-- The bits that the packet takes up. -/
def length (p : Packet) : Nat := Word.total (p.messages.map Message.length)

/-- The length as a word, which a very long packet does not have. -/
def bits? (p : Packet) : Option Nat := if Word.fits p.length then some p.length else none

def headers (p : Packet) : List Header := p.messages.filterMap Message.header

def payloads (p : Packet) : List Payload := p.messages.filterMap Message.payload

def unicastHeaders (p : Packet) : List UnicastHeader := p.headers.filterMap Header.unicast?

def contains (p : Packet) (frameType : FrameType) : Bool :=
  p.headers.any fun h => h.frameType = frameType

/-- The first base header, wherever it stands. -/
def base? (p : Packet) : Option BaseHeader :=
  p.headers.findSome? fun
    | .base h => some h
    | _ => none

/-- Who sent the packet: its first header says so, if that is a base header. -/
def origin (p : Packet) : Address :=
  match p.headers.head? with
  | some (.base h) => h.source
  | _ => .unset

/-- Who the packet is for. A beacon counts before a broadcast, and that before a station. -/
def dest (p : Packet) : Address :=
  if p.contains .beacon then .beacon
  else if p.contains .broadcast then .broadcast
  else match p.unicastHeaders with
    | h :: _ => h.dest
    | [] => .unset

/-! ## Composition -/

/-- Whether a header may be added to a packet with the given headers. -/
def checkNext (headers : List Header) (new : Header) : Except PacketError Unit :=
  match headers, new with
  | [], .base _ => .ok ()
  | [], _ => .error (.firstHeaderNotBase new.frameType)
  | _, .base _ => .error .duplicateBase
  | _, .beacon _ =>
    if headers.any fun h => h.dest?.isSome then .error .beaconNotFirst else .ok ()
  | _, .broadcast _ =>
    if headers.any fun h => h.frameType.isUnicastFamily then .error .broadcastAfterUnicast
    else .ok ()
  | _, .unicast h | _, .linkRequest h _ | _, .linkReply h _ =>
    if h.dest.isSymbolic then .error (.invalidDestination h.dest)
    else match headers.filterMap Header.unicast? with
      | first :: _ =>
        if first.dest = h.dest then .ok () else .error (.conflictingDestination first.dest h.dest)
      | [] => .ok ()
  | _, .dmeRequest | _, .dmeResponse _ => .ok ()

/-- Adds a message at the end, if the grammar allows its header. -/
def add (p : Packet) (header : Option Header) (payload : Option Payload) :
    Except PacketError Packet := do
  if let some h := header then checkNext p.headers h
  return { p with messages := p.messages ++ [⟨header, payload⟩] }

/-- Takes out the message at an index. No composition is checked. -/
def erase (p : Packet) (index : Nat) : Except PacketError (Message × Packet) :=
  match p.messages[index]? with
  | some m => return (m, { p with messages := p.messages.eraseIdx index })
  | none => throw (.indexOutOfRange index p.size)

/-! ## Changes in place -/

/-- Changes every header. -/
def mapHeaders (f : Header → Header) (p : Packet) : Packet :=
  { p with messages := p.messages.map fun m => { m with header := m.header.map f } }

/-- Changes the unicast part of every header that has one. -/
def mapUnicast (f : UnicastHeader → UnicastHeader) (p : Packet) : Packet :=
  p.mapHeaders (Header.mapUnicast f)

/-- Changes the source of the first base header of a list of messages. -/
def signMessages (source : Address) : List Message → List Message
  | [] => []
  | ⟨some (.base h), payload⟩ :: rest => ⟨some (.base { h with source }), payload⟩ :: rest
  | m :: rest => m :: signMessages source rest

/-- Gives the packet a sender, if it has a base header. -/
def sign (source : Address) (p : Packet) : Packet :=
  { p with messages := signMessages source p.messages }

/-- Puts another message in the place of one. No composition is checked. -/
def replace? (p : Packet) (index : Nat) (m : Message) : Option Packet :=
  if index < p.size then some { p with messages := p.messages.set index m } else none

/-- Appends a byte to the payload of a message, if that is foreign. -/
def pushByte? (p : Packet) (index : Nat) (byte : UInt8) : Option Packet := do
  let m ← p.messages[index]?
  match m.payload with
  | some (.foreign bytes) => p.replace? index { m with payload := some (.foreign (bytes.push byte)) }
  | _ => none

/-! ## Watchers -/

/-- A copy, which nobody watches. -/
def copy (p : Packet) : Packet := { p with watchers := [] }

/-- Has `tag` told whenever the packet is sent. -/
def watch (p : Packet) (tag : String) : Packet := { p with watchers := p.watchers ++ [⟨tag, 0⟩] }

/-- Tells every watcher, in the order in which they came. -/
def announce (p : Packet) : List SentNotice × Packet :=
  let told := p.watchers.map fun w => { w with calls := w.calls + 1 }
  (told.map fun w => ⟨w.tag, w.calls, p.size, p.dest⟩, { p with watchers := told })

/-! ## Dumps -/

/-- A payload as a dump shows it, for the kinds that have a dump. -/
def dumpPayload : Option Payload → Option String
  | none => some "None"
  | some (.fixed n) => some ("Some(FixedSizePayload(" ++ toString n ++ "))")
  | some _ => none

/-- A message as a dump shows it, if it has no header. -/
def dumpMessage (m : Message) : Option String := do
  guard m.header.isNone
  return "Message \x7b header: None, payload: " ++ (← dumpPayload m.payload) ++ " \x7d"

/-- The packet as a dump shows it, if each of its messages has a dump. -/
def dump? (p : Packet) : Option String := do
  let messages ← p.messages.mapM dumpMessage
  return "Packet \x7b messages: [" ++ ", ".intercalate messages ++ "], callbacks: "
    ++ toString p.watchers.length ++ " \x7d"

end Packet

end DataLink
