import DataLink.Packet

/-!
# Failures

Why a call into a layer fails, why a configuration is refused, and the wording of each. A failure
that comes from a header or a packet keeps it as its *cause*.
-/

namespace DataLink

/-- The layers of a station, from the top. -/
inductive Layer where
  | net
  | rlc
  | arq
  | mac
  | phy
deriving DecidableEq, Repr

def Layer.name : Layer → String
  | net => "net"
  | rlc => "rlc"
  | arq => "arq"
  | mac => "mac"
  | phy => "phy"

/-- What a layer may leave out. -/
inductive Capability where
  | hopCount
  | hopReports
  | transmitterScheduling
  | receiverScheduling
  | receiverTuning
  | stubTransmission
deriving DecidableEq, Repr

def Capability.text : Capability → String
  | hopCount => "ground station hop count"
  | hopReports => "ground station hop reports"
  | transmitterScheduling => "transmitter scheduling"
  | receiverScheduling => "receiver scheduling"
  | receiverTuning => "receiver tuning"
  | stubTransmission => "stub transmission"

/-- Why a call into a layer fails. -/
inductive LayerError where
  /-- The way to the layer was never wired, or leads nowhere any more. -/
  | unwired (layer : String)
  /-- The way to the layer is wired already. -/
  | alreadyWired (layer : String)
  /-- The layer is in the middle of another call. -/
  | reentrant (layer : String)
  | unknownId (id : Address)
  | unsupported (capability : Capability)
  | queueFull (dest : Address)
  | receiversExhausted (receivers : Nat)
  | header (e : HeaderError)
  | packet (e : PacketError)
deriving DecidableEq, Repr

namespace LayerError

def text : LayerError → String
  | unwired layer => layer ++ " layer is not wired"
  | alreadyWired layer => layer ++ " layer is already wired"
  | reentrant layer => layer ++ " layer is already in use"
  | unknownId id => "unknown id " ++ id.text
  | unsupported capability => capability.text ++ " is not supported"
  | queueFull dest => "queue for " ++ dest.text ++ " is full"
  | receiversExhausted receivers => "all " ++ toString receivers ++ " receivers are tuned"
  | header _ => "failed to build header"
  | packet _ => "failed to assemble packet"

/-- The wording of the cause. -/
def cause? : LayerError → Option String
  | header e => some e.text
  | packet e => some e.text
  | _ => none

end LayerError

/-- A send window that a link cannot have. -/
structure InvalidWindow where
  windowSize : Nat
deriving DecidableEq, Repr

def InvalidWindow.text (e : InvalidWindow) : String :=
  "window size " ++ toString e.windowSize ++ " is out of range"

/-- An address that no station can have. -/
structure InvalidStationId where
  id : Address
deriving DecidableEq, Repr

def InvalidStationId.text (e : InvalidStationId) : String :=
  e.id.text ++ " is not a station address"

/-- Why a station cannot be put together. -/
inductive StationError where
  | arq (e : InvalidWindow)
  | mac (e : InvalidStationId)
  | wire (e : LayerError)
deriving DecidableEq, Repr

namespace StationError

def text : StationError → String
  | arq _ => "invalid ARQ configuration"
  | mac _ => "invalid MAC configuration"
  | wire _ => "failed to wire layers"

/-- The wording of the cause. -/
def cause : StationError → String
  | arq e => e.text
  | mac e => e.text
  | wire e => e.text

end StationError

end DataLink
