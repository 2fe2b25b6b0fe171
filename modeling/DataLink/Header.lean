import DataLink.Address
import DataLink.Sequence
import DataLink.RejectMap
import DataLink.Position

/-!
# Headers

Every message of a packet may be led by one header. No header is written out as bytes: what counts
for the schedule is how many bits each takes up in a slot, and `Width` lists the width of every
field.
-/

namespace DataLink

/-! ## Frame types -/

/-- What a header is for. -/
inductive FrameType where
  | base
  | broadcast
  | beacon
  | unicast
  | linkRequest
  | linkReply
  | dmeRequest
  | dmeResponse
deriving DecidableEq, Repr

namespace FrameType

def all : List FrameType :=
  [base, broadcast, beacon, unicast, linkRequest, linkReply, dmeRequest, dmeResponse]

/-- Headers of this type have the address of one station. -/
def isUnicastFamily : FrameType → Bool
  | unicast | linkRequest | linkReply => true
  | _ => false

def text : FrameType → String
  | base => "base"
  | broadcast => "broadcast"
  | beacon => "beacon"
  | unicast => "unicast"
  | linkRequest => "link establishment request"
  | linkReply => "link establishment reply"
  | dmeRequest => "dme request"
  | dmeResponse => "dme response"

end FrameType

/-! ## Widths in bits -/

namespace Width

def frameType : Nat := 3
def address : Nat := 27
def burstLength : Nat := 4
def reservation : Nat := 8 + 2 * burstLength + 8
def authentication : Nat := 16
def fragment : Nat := 2
def latitude : Nat := 12
def longitude : Nat := 14
def altitude : Nat := 12
def position : Nat := latitude + longitude + altitude
def hopCount : Nat := 5
def positionQuality : Nat := 2
def sequenceNumber : Nat := 8
def rejectMap : Nat := 16

def base : Nat := frameType + address + reservation + authentication
def broadcast : Nat := frameType + fragment
def beacon : Nat := frameType + position + 1 + hopCount + positionQuality
/-- Type, ARQ flag, fragment flags, three numbers of eight bits, reject map and address. -/
def unicast : Nat := frameType + 1 + fragment + 3 * sequenceNumber + rejectMap + address
def link : Nat := unicast + reservation
def dmeRequest : Nat := frameType
def dmeResponse : Nat := frameType + address

end Width

/-! ## Fields -/

/-- The number of slots of a burst. -/
structure BurstLength where
  val : Nat
deriving DecidableEq, Repr, Inhabited

namespace BurstLength

/-- The longest burst that a header has a place for. -/
def highest : BurstLength := ⟨15⟩

def ofNat? (slots : Nat) : Option BurstLength :=
  if slots ≤ highest.val then some ⟨slots⟩ else none

end BurstLength

/-- The slots a station keeps for itself. -/
structure Reservation where
  burstOffset : Nat
  burstLength : BurstLength
  burstLengthNext : BurstLength
  timeout : Nat
deriving DecidableEq, Repr, Inhabited

/-- Which ends of a datagram a message holds. -/
structure Fragment where
  start : Bool
  finish : Bool
deriving DecidableEq, Repr, Inhabited

/-- The whole datagram in one message. -/
def Fragment.whole : Fragment := ⟨true, true⟩

/-! ## Headers -/

/-- Leads every packet and says who sends it. -/
structure BaseHeader where
  source : Address
  reservation : Reservation
  authentication : Nat
deriving DecidableEq, Repr, Inhabited

/-- The base header of a station that reserves nothing. -/
def BaseHeader.ofSource (source : Address) : BaseHeader := { (default : BaseHeader) with source }

/-- Announces where a station is and how far from the ground. -/
structure BeaconHeader where
  position : Position
  isOdd : Bool
  hops : HopCount
  quality : PositionQuality
deriving DecidableEq, Repr, Inhabited

/-- Addresses one station. The ARQ fields are the number of this frame and what its sender has
received: the next number it expects, and the numbers it misses beyond that. -/
structure UnicastHeader where
  dest : Address
  useArq : Bool
  seq : SequenceNumber
  nextExpected : SequenceNumber
  rejects : RejectMap
  ackSlotOffset : Nat
  fragment : Fragment
deriving DecidableEq, Repr, Inhabited

/-- Why a header cannot be built. -/
inductive HeaderError where
  | invalidDestination (dest : Address)
  | notUnicastFamily (frameType : FrameType)
deriving DecidableEq, Repr

def HeaderError.text : HeaderError → String
  | .invalidDestination dest => "invalid unicast destination " ++ dest.text
  | .notUnicastFamily frameType => frameType.text ++ " is not a unicast frame type"

/-- A header for one station, with its other fields unset. Symbolic addresses are refused. -/
def UnicastHeader.to? (dest : Address) : Except HeaderError UnicastHeader :=
  if dest.isSymbolic then .error (.invalidDestination dest)
  else .ok { (default : UnicastHeader) with dest }

/-- What leads a message. -/
inductive Header where
  | base (h : BaseHeader)
  | broadcast (fragment : Fragment)
  | beacon (h : BeaconHeader)
  | unicast (h : UnicastHeader)
  | linkRequest (h : UnicastHeader) (reservation : Reservation)
  | linkReply (h : UnicastHeader) (reservation : Reservation)
  | dmeRequest
  | dmeResponse (requester : Address)
deriving DecidableEq, Repr

namespace Header

/-- A header of the given type for one station. The type is looked at after the address only where
it is a unicast type. -/
def unicastFamily? (frameType : FrameType) (dest : Address) : Except HeaderError Header :=
  match frameType with
  | .unicast => return unicast (← UnicastHeader.to? dest)
  | .linkRequest => return linkRequest (← UnicastHeader.to? dest) default
  | .linkReply => return linkReply (← UnicastHeader.to? dest) default
  | other => throw (.notUnicastFamily other)

def frameType : Header → FrameType
  | base _ => .base
  | broadcast _ => .broadcast
  | beacon _ => .beacon
  | unicast _ => .unicast
  | linkRequest _ _ => .linkRequest
  | linkReply _ _ => .linkReply
  | dmeRequest => .dmeRequest
  | dmeResponse _ => .dmeResponse

/-- How many bits of a slot the header takes up. -/
def bits : Header → Nat
  | base _ => Width.base
  | broadcast _ => Width.broadcast
  | beacon _ => Width.beacon
  | unicast _ => Width.unicast
  | linkRequest _ _ | linkReply _ _ => Width.link
  | dmeRequest => Width.dmeRequest
  | dmeResponse _ => Width.dmeResponse

/-- The unicast part, where there is one. -/
def unicast? : Header → Option UnicastHeader
  | unicast h | linkRequest h _ | linkReply h _ => some h
  | _ => none

/-- Changes the unicast part, where there is one. -/
def mapUnicast (f : UnicastHeader → UnicastHeader) : Header → Header
  | unicast h => unicast (f h)
  | linkRequest h r => linkRequest (f h) r
  | linkReply h r => linkReply (f h) r
  | other => other

/-- Who the header is for. Base and ranging headers are for nobody in particular. -/
def dest? : Header → Option Address
  | beacon _ => some .beacon
  | broadcast _ => some .broadcast
  | unicast h | linkRequest h _ | linkReply h _ => some h.dest
  | base _ | dmeRequest | dmeResponse _ => none

/-- Who the header is from. -/
def source? : Header → Option Address
  | base h => some h.source
  | _ => none

/-- Equality of what headers say: coordinates are compared as numbers, all else as it is. -/
def sameValue : Header → Header → Bool
  | beacon a, beacon b =>
    a.position.sameValue b.position && { a with position := default } == { b with position := default }
  | a, b => a == b

theorem isUnicastFamily_frameType (h : Header) :
    h.frameType.isUnicastFamily = h.unicast?.isSome := by
  cases h <;> rfl

end Header

end DataLink
