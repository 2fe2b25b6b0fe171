import DataLink.Station.Host

/-!
# The shared medium

Several stations on one radio channel. In each slot every station is updated, and then everything
that was transmitted is given to every other station, unless the medium loses it, keeps it back, or
does not reach from the one to the other. Transmissions are numbered in the order in which they are
made; those kept back arrive after the last slot.
-/

namespace DataLink

/-- What the medium does to transmissions, by their numbers. -/
structure MediumPlan where
  slots : Nat
  lost : List Nat
  /-- Transmissions that arrive twice. -/
  doubled : List Nat
  /-- Transmissions that are kept back, in the order in which they arrive then. Each arrives once,
  also if its number stands here more than once. -/
  delayed : List Nat
  /-- Every so many transmissions the last one is lost; 0 for none. -/
  loseEvery : Nat
  /-- Pairs of a sender and a station it does not reach. -/
  cut : List (Nat × Nat)
deriving DecidableEq, Repr

/-- The transmission with a given number does not arrive. -/
def MediumPlan.loses (p : MediumPlan) (number : Nat) : Bool :=
  p.lost.contains number || (0 < p.loseEvery && number % p.loseEvery == p.loseEvery - 1)

/-- Something that was transmitted: when, by which station, and what. -/
structure OnAir where
  slot : Nat
  sender : Nat
  transmission : Transmission
deriving DecidableEq

/-- A call that failed while the medium ran. -/
inductive Mishap where
  | update (slot station : Nat) (fault : HostFault)
  | reception (number station : Nat) (fault : HostFault)
deriving DecidableEq

/-- The stations, and what has happened so far. -/
structure Medium where
  stations : List Hosted
  onAir : List OnAir
  mishaps : List Mishap
  kept : List (Nat × OnAir)
deriving DecidableEq

namespace Medium

/-- Runs a call on one station and takes down its failure. An overflow ends everything. -/
def call (m : Medium) (station : Nat) (step : Ask Unit) (mishap : HostFault → Mishap) :
    Option Medium :=
  match m.stations[station]? with
  | none => some m
  | some h =>
    match step h with
    | (.error (.fault .overflow), _) => none
    | (.error f, h) =>
      some { m with stations := m.stations.set station h, mishaps := m.mishaps ++ [mishap f] }
    | (.ok (), h) => some { m with stations := m.stations.set station h }

/-- Gives a transmission to every other station that it reaches. -/
def deliver (p : MediumPlan) (m : Medium) (number : Nat) (t : OnAir) : Option Medium :=
  let reached := (List.range m.stations.length).filter fun i =>
    i ≠ t.sender && !p.cut.contains (t.sender, i)
  let arriving := { t.transmission with packet := t.transmission.packet.copy }
  reached.foldlM (fun m i => m.call i (Hosted.receive arriving) (.reception number i)) m

/-- Does to a transmission what the plan says. -/
def send (p : MediumPlan) (m : Medium) (t : OnAir) : Option Medium := do
  let number := m.onAir.length
  let m := { m with onAir := m.onAir ++ [t] }
  if p.delayed.contains number then return { m with kept := m.kept ++ [(number, t)] }
  else if p.loses number then return m
  else
    let m ← m.deliver p number t
    if p.doubled.contains number then m.deliver p number t else return m

/-- Collects what one station transmitted. -/
def collect (slot : Nat) (m : Medium) (station : Nat) : List OnAir × Medium :=
  match m.stations[station]? with
  | none => ([], m)
  | some h =>
    let (sent, h) := h.drainOutbox
    (sent.map fun t => ⟨slot, station, t⟩, { m with stations := m.stations.set station h })

/-- Runs one slot. -/
def runSlot (p : MediumPlan) (m : Medium) (slot : Nat) : Option Medium := do
  let all := List.range m.stations.length
  let m ← all.foldlM (fun m i => m.call i Hosted.update (.update slot i)) m
  let (sent, m) := all.foldl (fun (sent, m) i =>
    let (more, m) := collect slot m i
    (sent ++ more, m)) ([], m)
  sent.foldlM (send p) m

/-- Lets a transmission arrive, if it is kept back; from then on it is kept no more. -/
def letGo (p : MediumPlan) (m : Medium) (number : Nat) : Option Medium :=
  match m.kept.lookup number with
  | some t => { m with kept := m.kept.filter fun e => e.1 ≠ number }.deliver p number t
  | none => some m

/-- Runs all slots, and then lets the transmissions that were kept back arrive. -/
def run (p : MediumPlan) (stations : List Hosted) : Option Medium := do
  let m ← (List.range p.slots).foldlM (runSlot p) ⟨stations, [], [], []⟩
  p.delayed.foldlM (letGo p) m

end Medium

end DataLink
