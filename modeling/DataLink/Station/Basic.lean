import DataLink.Binding
import DataLink.Station.Layers

/-!
# Stations

A station is five layers, each in a seat, and the bindings between neighbors. A call through a
binding takes the neighbor out of its seat for as long as it lasts, so a chain of calls that came
back to a layer on its own way would not find it there. The instances below let every layer reach
its neighbors in this way, with the station as its surroundings.
-/

namespace DataLink

/-- A binding of a layer: the layer that has it, and the direction it goes. -/
inductive Joint where
  | netLower
  | rlcUpper
  | rlcLower
  | arqUpper
  | arqLower
  | macUpper
  | macLower
  | phyUpper
deriving DecidableEq, Repr

namespace Joint

/-- The bindings of a station, in the order in which they are wired. -/
def all : List Joint :=
  [netLower, rlcUpper, rlcLower, arqUpper, arqLower, macUpper, macLower, phyUpper]

/-- The layer that has the binding. -/
def owner : Joint → Layer
  | netLower => .net
  | rlcUpper | rlcLower => .rlc
  | arqUpper | arqLower => .arq
  | macUpper | macLower => .mac
  | phyUpper => .phy

/-- The layer that the binding leads to. -/
def target : Joint → Layer
  | netLower | arqUpper => .rlc
  | rlcUpper => .net
  | rlcLower | macUpper => .arq
  | arqLower | phyUpper => .mac
  | macLower => .phy

end Joint

structure Station where
  net : Seat NetLayer
  rlc : Seat RlcLayer
  arq : Seat ArqLayer
  mac : Seat MacLayer
  phy : Seat PhyLayer
  /-- The bindings that are wired. -/
  wired : List Joint
  /-- What the stubs noted and the host did not collect yet. -/
  journal : List JournalEntry
deriving DecidableEq

/-- The seat of one kind of layer in a station. -/
structure Place (σ : Type) where
  layer : Layer
  get : Station → Seat σ
  put : Seat σ → Station → Station

namespace Place

def net : Place NetLayer := ⟨.net, Station.net, fun x s => { s with net := x }⟩
def rlc : Place RlcLayer := ⟨.rlc, Station.rlc, fun x s => { s with rlc := x }⟩
def arq : Place ArqLayer := ⟨.arq, Station.arq, fun x s => { s with arq := x }⟩
def mac : Place MacLayer := ⟨.mac, Station.mac, fun x s => { s with mac := x }⟩
def phy : Place PhyLayer := ⟨.phy, Station.phy, fun x s => { s with phy := x }⟩

/-- Runs a call inside the layer at a place. -/
def enter {σ α : Type} (p : Place σ) (step : Call (Inside σ Station) α) : Call Station α := fun s =>
  match (p.get s).enter p.layer.name with
  | .error e => (.error (.layer e), s)
  | .ok layer =>
    let (r, after) := step ⟨layer, p.put .entered s⟩
    (r, p.put ((p.get after.around).leave after.layer) after.around)

end Place

namespace Station

instance : Journal Station := ⟨fun entry s => { s with journal := s.journal ++ [entry] }⟩

/-! ## Wiring -/

/-- A binding of the station, which leads to a layer of the same station once it is wired. -/
def binding (s : Station) (j : Joint) : Binding Layer :=
  ⟨j.target.name, if j ∈ s.wired then some j.target else none⟩

/-- Wires a binding, once. -/
def wire (s : Station) (j : Joint) : Except LayerError Station :=
  ((s.binding j).wire j.target).map fun _ => { s with wired := s.wired ++ [j] }

/-- Wires all bindings that are given, and stops at one that is wired already. -/
def wireAll (s : Station) (joints : List Joint) : Except LayerError Station :=
  joints.foldlM wire s

/-- Runs a call inside the layer that a binding leads to. -/
def through {σ α : Type} (j : Joint) (p : Place σ) (step : Call (Inside σ Station) α) :
    Call Station α := fun s =>
  if (s.binding j).isWired then p.enter step s
  else (.error (.layer (.unwired j.target.name)), s)

/-! ## What the layers ask of each other -/

instance : NetAbove Station where
  receive datagram origin := through .rlcUpper .net (NetLayer.receive datagram origin)
  hops := through .rlcUpper .net NetLayer.hops
  report id hops := through .rlcUpper .net (NetLayer.report id hops)

instance : MacBelow Station where
  notifyOutgoing bits dest := through .arqLower .mac (MacLayer.notifyOutgoing bits dest)

instance : ArqBelow Station where
  notifyOutgoing bits dest := through .rlcLower .arq (ArqLayer.notifyOutgoing bits dest)

instance : PhyBelow Station where
  transmit packet frequency := through .macLower .phy (PhyLayer.transmit packet frequency)
  datarate := through .macLower .phy do return (← Call.own).datarate

instance : RlcAbove Station where
  request bits dest := through .arqUpper .rlc (RlcLayer.request bits dest)
  requestBurst bits dest frame := through .arqUpper .rlc (RlcLayer.requestBurst bits dest frame)
  receive packet := through .arqUpper .rlc (RlcLayer.receive packet)
  inject packet priority := through .arqUpper .rlc (RlcLayer.inject packet priority)
  hasMore dest := through .arqUpper .rlc do return (← Call.own).hasMore dest
  hops := through .arqUpper .rlc RlcLayer.hops
  report id hops := through .arqUpper .rlc (RlcLayer.report id hops)

instance : RlcBelow Station where
  accept datagram dest priority :=
    through .netLower .rlc (RlcLayer.accept datagram dest priority)

instance : ArqAbove Station where
  request bits dest := through .macUpper .arq (ArqLayer.request bits dest)
  receive packet := through .macUpper .arq (ArqLayer.receive packet)
  inject packet := through .macUpper .arq (ArqLayer.inject packet)
  linkUp id := through .macUpper .arq (ArqLayer.linkUp id)
  linkDown id := through .macUpper .arq (ArqLayer.linkDown id)
  hasMore dest := through .macUpper .arq (ArqLayer.hasMore dest)
  tick slots := through .macUpper .arq (Call.change (ArqLayer.tick slots))
  hops := through .macUpper .arq ArqLayer.hops
  report id hops := through .macUpper .arq (ArqLayer.report id hops)

instance : MacAbove Station where
  receive packet frequency := through .phyUpper .mac (MacLayer.receive packet frequency)

/-! ## What the host asks of a station -/

/-- Sends a datagram. -/
def send (datagram : Datagram) (dest : Address) (priority : Nat) : Call Station Unit :=
  Place.net.enter (NetLayer.send datagram dest priority)

/-- Takes in what the radio heard. -/
def receive (t : Transmission) : Call Station Unit := Place.phy.enter (PhyLayer.hear t)

/-- Runs a call on the slotted MAC. A MAC of another kind cannot be reached in this way. -/
def onSlotMac {α : Type} (step : Call (Inside SlotMac Station) α) : Call Station α :=
  Place.mac.enter do
    match ← Call.own with
    | .slotted m => Call.embed .slotted m step
    | .stub _ => Call.fail (.unwired Layer.mac.name)

/-- Lets one slot pass for the PHY and then for the MAC. -/
def update : Call Station Unit := do
  Place.phy.enter (Call.change (PhyLayer.tick 1))
  onSlotMac SlotMac.update

/-- Tears down the link to a station. -/
def removeLink (id : Address) : Call Station Unit := onSlotMac (SlotMac.removeLink id)

end Station

end DataLink
