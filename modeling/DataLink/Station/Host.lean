import DataLink.Station.Config

/-!
# Hosts

A host keeps stations and calls into them from outside. It keeps a station either *assembled*, as
one thing with a configuration, or as five loose layers. It may hold a layer for some time and may
drop layers; an assembled station comes apart when one of its layers is dropped. An assembled station
answers for its layers, so a layer that is held shows as an error of the station; of loose layers the
host knows itself which ones it cannot reach.
-/

namespace DataLink

/-- Why the host cannot reach a layer. -/
inductive Refusal where
  /-- It was dropped, or it is of another kind. -/
  | noLayer
  /-- The host holds it. -/
  | held
deriving DecidableEq, Repr

/-- How a call of the host ends early. -/
inductive HostFault where
  | refused (r : Refusal)
  | fault (f : Fault)
deriving DecidableEq, Repr

/-- A station in the hands of a host; it has a configuration as long as it is assembled. -/
structure Hosted where
  station : Station
  config : Option StationConfig
deriving DecidableEq

/-- A call of the host, which keeps the station when it fails. -/
abbrev Ask := ExceptT HostFault (StateM Hosted)

namespace Hosted

variable {σ α : Type}

def isAssembled (h : Hosted) : Bool := h.config.isSome

/-- The layer at a place, if the host still has it. -/
def layer? (h : Hosted) (p : Place σ) : Option σ := (p.get h.station).kept?

/-- Whether the host can call into the layer at a place. -/
def reach (h : Hosted) (p : Place σ) : Except Refusal σ :=
  match h.layer? p, (p.get h.station).idle? with
  | none, _ => .error .noLayer
  | some _, none => .error .held
  | some _, some layer => .ok layer

/-- Runs a call on the station. -/
def run (step : Call Station α) : Ask α := fun h =>
  match step h.station with
  | (.ok a, station) => (.ok a, { h with station })
  | (.error f, station) => (.error (.fault f), { h with station })

/-- Runs a call inside a layer that the host can reach. -/
def ask (p : Place σ) (step : Call (Inside σ Station) α) : Ask α := do
  match (← get).reach p with
  | .ok _ => run (p.enter step)
  | .error r => throw (.refused r)

/-- Runs a call on a station: as a whole if it is assembled, else inside its layer. -/
def askWhole (p : Place σ) (step : Call (Inside σ Station) α) : Ask α := do
  if (← get).isAssembled then run (p.enter step) else ask p step

/-- What an assembled station was made from, and which of its bindings are wired. All layers have
to be free to tell. -/
def describe : Ask (Option (StationConfig × List Bool)) := do
  let h ← get
  match h.config with
  | none => return none
  | some c =>
    let s := h.station
    if s.net.idle?.isSome && s.rlc.idle?.isSome && s.arq.idle?.isSome && s.mac.idle?.isSome
        && s.phy.idle?.isSome then return some (c, s.wiredFlags)
    else throw (.refused .held)

/-- Looks at a layer of a certain kind. -/
def look {τ : Type} (p : Place σ) (kind : σ → Option τ) (f : τ → α) : Ask α := do
  match ((← get).layer? p).bind kind with
  | none => throw (.refused .noLayer)
  | some t => ask p (return f t)

/-- Runs a call on the slotted MAC. -/
def askSlotMac (step : Call (Inside SlotMac Station) α) : Ask α := do
  match ((← get).layer? .mac).bind MacLayer.slotted? with
  | none => throw (.refused .noLayer)
  | some m => ask .mac (Call.embed .slotted m step)

def send (datagram : Datagram) (dest : Address) (priority : Nat) : Ask Unit :=
  askWhole .net (NetLayer.send datagram dest priority)

def receive (t : Transmission) : Ask Unit := askWhole .phy (PhyLayer.hear t)

/-- Lets one slot pass. Of loose layers, a PHY that cannot be reached is left out. -/
def update : Ask Unit := do
  let h ← get
  if h.isAssembled then run Station.update
  else
    if (h.reach .phy).isOk then ask .phy (Call.change (PhyLayer.tick 1))
    askSlotMac SlotMac.update

/-- Runs a call of the host and hands its failure over as a value; an overflow still ends
everything. -/
def attempt (step : Ask α) : Ask (Except HostFault α) := fun h =>
  match step h with
  | (.error (.fault .overflow), h) => (.error (.fault .overflow), h)
  | (r, h) => (.ok r, h)

/-- Lets `left` slots pass until one of them fails. The failure comes with the number of slots that
passed before it, of which there were `done` already. -/
def updateMany (done : Nat) : Nat → Ask (Option (Nat × HostFault))
  | 0 => return none
  | left + 1 => do
    match ← attempt update with
    | .ok () => updateMany (done + 1) left
    | .error f => return some (done, f)

/-- Collects what was transmitted, as far as the outbox can be reached. -/
def drainOutbox (h : Hosted) : List Transmission × Hosted :=
  match h.station.phy with
  | .idle (.outbox p) =>
    let (sent, p) := p.drain
    (sent, { h with station := { h.station with phy := .idle (.outbox p) } })
  | _ => ([], h)

/-- Collects what was received. -/
def drainInbox (h : Hosted) : Except Refusal (List (Address × Datagram) × Hosted) :=
  match (h.layer? .net).bind NetLayer.routing?, h.station.net with
  | none, _ => .error .noLayer
  | some n, .idle _ =>
    let (received, n) := n.drain
    .ok (received, { h with station := { h.station with net := .idle (.routing n) } })
  | some _, _ => .error .held

/-- Collects what the stubs noted. -/
def drainJournal (h : Hosted) : List JournalEntry × Hosted :=
  (h.station.journal, { h with station := { h.station with journal := [] } })

/-- Wires a binding of loose layers. All five have to be there, and the one that has the binding
has to be free. -/
def wire (j : Joint) : Ask Unit := do
  let h ← get
  let s := h.station
  let all := s.net.kept?.isSome && s.rlc.kept?.isSome && s.arq.kept?.isSome && s.mac.kept?.isSome
    && s.phy.kept?.isSome
  let free := match j.owner with
    | .net => s.net.idle?.isSome
    | .rlc => s.rlc.idle?.isSome
    | .arq => s.arq.idle?.isSome
    | .mac => s.mac.idle?.isSome
    | .phy => s.phy.idle?.isSome
  if !all then throw (.refused .noLayer)
  else if !free then throw (.refused .held)
  else match s.wire j with
    | .ok station => set { h with station }
    | .error e => throw (.fault (.layer e))

/-! ## Holding and dropping -/

/-- Applies a change of seats to one layer. -/
def mapSeat (f : {σ : Type} → Seat σ → Seat σ) (h : Hosted) (l : Layer) : Hosted :=
  let s := h.station
  { h with station := match l with
    | .net => { s with net := f s.net }
    | .rlc => { s with rlc := f s.rlc }
    | .arq => { s with arq := f s.arq }
    | .mac => { s with mac := f s.mac }
    | .phy => { s with phy := f s.phy } }

/-- Holds a layer. -/
def hold (h : Hosted) (l : Layer) : Except Refusal Hosted := do
  match l with
  | .net => let _ ← h.reach .net
  | .rlc => let _ ← h.reach .rlc
  | .arq => let _ ← h.reach .arq
  | .mac => let _ ← h.reach .mac
  | .phy => let _ ← h.reach .phy
  return h.mapSeat Seat.hold l

def release (h : Hosted) (l : Layer) : Hosted := h.mapSeat Seat.release l

/-- Drops a layer. The others live on as loose layers. -/
def drop (h : Hosted) (l : Layer) : Hosted := { h.mapSeat Seat.drop l with config := none }

end Hosted

end DataLink
