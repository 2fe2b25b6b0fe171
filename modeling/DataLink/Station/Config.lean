import DataLink.Station.Basic

/-!
# Putting a station together

`Station.ofConfig` makes a station of the layers that this library has: a routing network layer, a
segmenting RLC, a selective-repeat ARQ, a slotted MAC and a PHY with an outbox. Of two faulty
settings, the one of the ARQ is reported.
-/

namespace DataLink

structure StationConfig where
  isGround : Bool
  /-- The most datagrams that are queued for one destination. -/
  maxQueued : Nat
  arq : ArqConfig
  mac : MacConfig
  phy : PhyConfig
deriving DecidableEq, Repr

instance : Inhabited StationConfig := ⟨false, 256, default, default, default⟩

namespace Station

/-- A station of the given layers, with no binding wired. -/
def ofLayers (net : NetLayer) (rlc : RlcLayer) (arq : ArqLayer) (mac : MacLayer) (phy : PhyLayer) :
    Station :=
  ⟨.idle net, .idle rlc, .idle arq, .idle mac, .idle phy, [], []⟩

/-- A station as the configuration describes it, with all bindings wired. -/
def ofConfig (c : StationConfig) : Except StationError Station := do
  let arq ← (SelectiveRepeat.ofConfig c.arq).mapError .arq
  let mac ← (SlotMac.ofConfig c.mac).mapError .mac
  let station := ofLayers (.routing (.empty c.isGround)) (.segmenting (.empty c.maxQueued))
    (.selective arq) (.slotted mac) (.outbox (.ofConfig c.phy))
  (station.wireAll Joint.all).mapError .wire

/-- The bindings that are wired, one flag for each. -/
def wiredFlags (s : Station) : List Bool := Joint.all.map fun j => (s.binding j).isWired

end Station

end DataLink
