import DataLink.Proofs.Agreement
import DataLink.Proofs.Station.Whole

/-!
# Crossings

A layer of a station reaches its neighbor through a binding, and finds it in its seat only if no call
is in it. One call of a host crosses many bindings: a slot has the MAC ask the ARQ, which asks the RLC,
and a packet that is heard goes from the PHY up to the network layer.

`Recorded` is a station whose layers reach each other just as those of a `Station` do, and which also
takes down which calls are within which, and every crossing: the binding, the layers that were in the
middle of a call then, and what the call came to. The layers cannot tell it from a station that takes
nothing down, so a recorded run is a run of the station.

**Theorem (`Station.crossings_enterIdle`).** In every run of a station, whatever its host asks and
receives: no call through a binding enters a layer that is in the middle of a call, no such call fails
for a reason of the wiring, and no call of the host does.

The calls do not go in circles because each keeps to one direction. While a call is in some layers, a
neighbor can be called as long as none of the layers that it may call in turn is among them; each
`agree_` lemma below says for one neighbor which layers these are.
-/

namespace DataLink

/-! ## Recorded stations -/

/-- A call through a binding. -/
structure Crossing where
  joint : Joint
  /-- The layers that were in the middle of a call before, the innermost call first. -/
  within : List Layer
  /-- What the call failed with, if it did. -/
  failure : Option Fault
deriving DecidableEq

/-- The call entered a layer that was not in the middle of another, and did not fail for a reason of
the wiring. -/
def Crossing.EntersIdle (c : Crossing) : Prop :=
  c.joint.target ∉ c.within ∧ ∀ f ∈ c.failure, f.isOfWiring = false

/-- A station that takes down every call through a binding, in the order in which they end. -/
structure Recorded where
  station : Station
  /-- The layers that are in the middle of a call, the innermost call first. -/
  within : List Layer
  crossings : List Crossing

namespace Recorded

variable {σ α : Type}

/-- A station that took nothing down yet. -/
def ofStation (s : Station) : Recorded := ⟨s, [], []⟩

/-- Runs a call inside the layer at a place, as `Place.enter` does. -/
def enter (p : Place σ) (step : Call (Inside σ Recorded) α) : Call Recorded α := fun r =>
  match (p.get r.station).enter p.layer.name with
  | .error e => (.error (.layer e), r)
  | .ok layer =>
    let (result, after) := step ⟨layer, ⟨p.put .entered r.station, p.layer :: r.within, r.crossings⟩⟩
    let s := after.around.station
    (result, ⟨p.put ((p.get s).leave after.layer) s, r.within, after.around.crossings⟩)

/-- Runs a call inside the layer that a binding leads to, as `Station.through` does, and takes it
down. -/
def through (j : Joint) (p : Place σ) (step : Call (Inside σ Recorded) α) : Call Recorded α := fun r =>
  let (result, after) : Except Fault α × Recorded :=
    if (r.station.binding j).isWired then enter p step r
    else (.error (.layer (.unwired j.target.name)), r)
  let failure := match result with
    | .ok _ => none
    | .error f => some f
  (result, { after with crossings := after.crossings ++ [⟨j, r.within, failure⟩] })

instance : Journal Recorded :=
  ⟨fun entry r => { r with station := Journal.note entry r.station }⟩

instance : NetAbove Recorded where
  receive datagram origin := through .rlcUpper .net (NetLayer.receive datagram origin)
  hops := through .rlcUpper .net NetLayer.hops
  report id hops := through .rlcUpper .net (NetLayer.report id hops)

instance : MacBelow Recorded where
  notifyOutgoing bits dest := through .arqLower .mac (MacLayer.notifyOutgoing bits dest)

instance : ArqBelow Recorded where
  notifyOutgoing bits dest := through .rlcLower .arq (ArqLayer.notifyOutgoing bits dest)

instance : PhyBelow Recorded where
  transmit packet frequency := through .macLower .phy (PhyLayer.transmit packet frequency)
  datarate := through .macLower .phy do return (← Call.own).datarate

instance : RlcAbove Recorded where
  request bits dest := through .arqUpper .rlc (RlcLayer.request bits dest)
  requestBurst bits dest frame := through .arqUpper .rlc (RlcLayer.requestBurst bits dest frame)
  receive packet := through .arqUpper .rlc (RlcLayer.receive packet)
  inject packet priority := through .arqUpper .rlc (RlcLayer.inject packet priority)
  hasMore dest := through .arqUpper .rlc do return (← Call.own).hasMore dest
  hops := through .arqUpper .rlc RlcLayer.hops
  report id hops := through .arqUpper .rlc (RlcLayer.report id hops)

instance : RlcBelow Recorded where
  accept datagram dest priority :=
    through .netLower .rlc (RlcLayer.accept datagram dest priority)

instance : ArqAbove Recorded where
  request bits dest := through .macUpper .arq (ArqLayer.request bits dest)
  receive packet := through .macUpper .arq (ArqLayer.receive packet)
  inject packet := through .macUpper .arq (ArqLayer.inject packet)
  linkUp id := through .macUpper .arq (ArqLayer.linkUp id)
  linkDown id := through .macUpper .arq (ArqLayer.linkDown id)
  hasMore dest := through .macUpper .arq (ArqLayer.hasMore dest)
  tick slots := through .macUpper .arq (Call.change (ArqLayer.tick slots))
  hops := through .macUpper .arq ArqLayer.hops
  report id hops := through .macUpper .arq (ArqLayer.report id hops)

instance : MacAbove Recorded where
  receive packet frequency := through .phyUpper .mac (MacLayer.receive packet frequency)

end Recorded

/-! ## Places -/

theorem Joint.mem_all (j : Joint) : j ∈ all := by
  cases j <;> decide

/-- A layer in its seat, whatever it is. -/
def Seat.forget {σ : Type} : Seat σ → Seat Unit
  | idle _ => .idle ()
  | entered => .entered
  | held _ kept => .held () kept
  | gone => .gone

theorem Seat.forget_eq_idle {σ : Type} {x : Seat σ} (h : x.forget = .idle ()) :
    ∃ layer, x = .idle layer := by
  cases x with
  | idle layer => exact ⟨layer, rfl⟩
  | entered | held | gone => cases h

theorem Seat.forget_eq_entered {σ : Type} {x : Seat σ} (h : x.forget = .entered) : x = .entered := by
  cases x with
  | entered => rfl
  | idle | held | gone => cases h

/-- The seat of a layer, whatever sits in it. -/
def Station.seat (s : Station) : Layer → Seat Unit
  | .net => s.net.forget
  | .rlc => s.rlc.forget
  | .arq => s.arq.forget
  | .mac => s.mac.forget
  | .phy => s.phy.forget

/-- The place is the seat of its layer, and no other. -/
structure Place.IsLawful {σ : Type} (p : Place σ) : Prop where
  seat_get : ∀ s, (p.get s).forget = s.seat p.layer
  seat_put : ∀ x s l, (p.put x s).seat l = if l = p.layer then x.forget else s.seat l
  wired_put : ∀ x s, (p.put x s).wired = s.wired

namespace Place

theorem isLawful_net : net.IsLawful :=
  ⟨fun _ => rfl, fun _ _ l => by cases l <;> rfl, fun _ _ => rfl⟩

theorem isLawful_rlc : rlc.IsLawful :=
  ⟨fun _ => rfl, fun _ _ l => by cases l <;> rfl, fun _ _ => rfl⟩

theorem isLawful_arq : arq.IsLawful :=
  ⟨fun _ => rfl, fun _ _ l => by cases l <;> rfl, fun _ _ => rfl⟩

theorem isLawful_mac : mac.IsLawful :=
  ⟨fun _ => rfl, fun _ _ l => by cases l <;> rfl, fun _ _ => rfl⟩

theorem isLawful_phy : phy.IsLawful :=
  ⟨fun _ => rfl, fun _ _ l => by cases l <;> rfl, fun _ _ => rfl⟩

end Place

/-! ## Calls in the middle of others -/

open Call (Answers Agree Beside)

namespace Recorded

variable {σ α : Type} {p : Place σ} {j : Joint} {within : List Layer} {s : Station} {r : Recorded}

/-- A call is in the layers `within` and in no others, all bindings are wired, and nothing went wrong
so far. -/
structure Runs (within : List Layer) (s : Station) (r : Recorded) : Prop where
  station : r.station = s
  calls : r.within = within
  wired : ∀ j, j ∈ s.wired
  seats : ∀ l, s.seat l = if l ∈ within then .entered else .idle ()
  clear : ∀ c ∈ r.crossings, c.EntersIdle

theorem Runs.entered (h : Runs within s r) (hp : p.IsLawful) : Runs (p.layer :: within)
    (p.put .entered s) ⟨p.put .entered r.station, p.layer :: r.within, r.crossings⟩ where
  station := congrArg (p.put .entered) h.station
  calls := congrArg (p.layer :: ·) h.calls
  wired j := by
    rw [hp.wired_put]
    exact h.wired j
  seats l := by
    rw [hp.seat_put, h.seats]
    by_cases hl : l = p.layer <;> simp [hl, Seat.forget]
  clear := h.clear

theorem Runs.left {layer : σ} (h : Runs (p.layer :: within) s r) (hp : p.IsLawful)
    (hfree : p.layer ∉ within) : Runs within (p.put ((p.get s).leave layer) s)
      ⟨p.put ((p.get r.station).leave layer) r.station, within, r.crossings⟩ := by
  -- Whatever was called from inside, this layer is still out of its seat.
  have hentered : p.get s = .entered :=
    Seat.forget_eq_entered (by rw [hp.seat_get, h.seats, if_pos List.mem_cons_self])
  refine ⟨by rw [h.station], rfl, fun j => ?_, fun l => ?_, h.clear⟩
  · rw [hp.wired_put]
    exact h.wired j
  · rw [hp.seat_put, h.seats, hentered]
    by_cases hl : l = p.layer <;> simp [hl, hfree, Seat.leave, Seat.forget]

/-- A call into a layer that none is in answers as it does without being taken down. -/
theorem Runs.enter (h : Runs within s r) (hp : p.IsLawful) (hfree : p.layer ∉ within)
    {step : Call (Inside σ Station) α} {other : Call (Inside σ Recorded) α}
    (hstep : ∀ layer, p.get s = .idle layer → ∀ s' r', Runs (p.layer :: within) s' r' →
      Answers (Beside (Runs (p.layer :: within))) (step ⟨layer, s'⟩) (other ⟨layer, r'⟩)) :
    Answers (Runs within) (p.enter step s) (enter p other r) := by
  obtain rfl := h.station
  obtain rfl := h.calls
  obtain ⟨layer, hlayer⟩ : ∃ layer, p.get r.station = .idle layer :=
    Seat.forget_eq_idle (by rw [hp.seat_get, h.seats, if_neg hfree])
  obtain ⟨hsame, ⟨hlayers, hruns⟩, havoids⟩ := hstep layer hlayer _ _ (h.entered hp)
  simp only [Place.enter, Recorded.enter, hlayer, Seat.enter]
  generalize step ⟨layer, _⟩ = answer at hsame hlayers hruns havoids ⊢
  generalize other ⟨layer, _⟩ = answer' at hsame hlayers hruns ⊢
  obtain ⟨result, after, s'⟩ := answer
  obtain ⟨result', after', r'⟩ := answer'
  obtain rfl : result = result' := hsame
  obtain rfl : after = after' := hlayers
  exact ⟨rfl, hruns.left hp hfree, havoids⟩

/-- A binding leads to a layer that none is in, so following it takes down nothing bad. -/
theorem agree_through (hp : p.IsLawful) (hj : j.target = p.layer) (hfree : p.layer ∉ within)
    {step : Call (Inside σ Station) α} {other : Call (Inside σ Recorded) α}
    (hstep : Agree (Beside (Runs (p.layer :: within))) step other) :
    Agree (Runs within) (Station.through j p step) (through j p other) := by
  intro s r h
  have hwired : (s.binding j).isWired = true := by simp [Station.binding, Binding.isWired, h.wired j]
  have hentered : Answers (Runs within) (p.enter step s) (enter p other r) :=
    h.enter hp hfree fun layer _ s' r' h' => hstep ⟨layer, s'⟩ ⟨layer, r'⟩ ⟨rfl, h'⟩
  simp only [Station.through, through, h.station, hwired, if_true]
  refine ⟨hentered.same, ⟨hentered.related.station, hentered.related.calls, hentered.related.wired,
    hentered.related.seats, fun c hc => ?_⟩, hentered.avoids⟩
  -- What was taken down inside the call is in order already; what is left is the call itself.
  rcases List.mem_append.1 hc with hc | hc
  · exact hentered.related.clear c hc
  · cases List.mem_singleton.1 hc
    refine ⟨?_, fun f hf => ?_⟩
    · rw [h.calls, hj]
      exact hfree
    · rw [← hentered.same] at hf
      cases hresult : (p.enter step s).1 with
      | ok a => simp [hresult] at hf
      | error e =>
        simp only [hresult, Option.mem_def, Option.some.injEq] at hf
        exact hf ▸ hentered.avoids e hresult

/-! ## Neighbors -/

theorem agree_journal : Journal.Agree (Runs within) := fun entry _ _ h =>
  ⟨congrArg (Journal.note entry) h.station, h.calls, h.wired,
    fun l => (by cases l <;> rfl : (Journal.note entry _ : Station).seat l = _).trans (h.seats l),
    h.clear⟩

theorem agree_net (hnet : .net ∉ within) : NetAbove.Agree (Runs within) where
  receive datagram origin := agree_through Place.isLawful_net rfl hnet
    (NetLayer.agree_receive agree_journal datagram origin)
  hops := agree_through Place.isLawful_net rfl hnet NetLayer.agree_hops
  report id count := agree_through Place.isLawful_net rfl hnet (NetLayer.agree_report id count)

theorem agree_rlc (hrlc : .rlc ∉ within) (hnet : .net ∉ within) : RlcAbove.Agree (Runs within) := by
  have habove : NetAbove.Agree (Runs (.rlc :: within)) := agree_net (by simp [hnet])
  constructor
  case request =>
    exact fun bits dest => agree_through Place.isLawful_rlc rfl hrlc
      (RlcLayer.agree_byKind (SegmentingRlc.agree_requestBurst bits dest 0)
        (StubRlc.agree_request agree_journal bits dest))
  case requestBurst =>
    exact fun bits dest frame => agree_through Place.isLawful_rlc rfl hrlc
      (RlcLayer.agree_byKind (SegmentingRlc.agree_requestBurst bits dest frame)
        (StubRlc.agree_request agree_journal bits dest))
  case receive =>
    exact fun packet => agree_through Place.isLawful_rlc rfl hrlc
      (RlcLayer.agree_byKind (SegmentingRlc.agree_receive habove packet)
        (StubRlc.agree_receive agree_journal packet))
  case inject =>
    exact fun packet priority => agree_through Place.isLawful_rlc rfl hrlc
      (RlcLayer.agree_byKind (.change _) (StubRlc.agree_inject agree_journal packet priority))
  case hasMore =>
    exact fun dest => agree_through Place.isLawful_rlc rfl hrlc (.bind .own fun _ => .pure _)
  case hops => exact agree_through Place.isLawful_rlc rfl hrlc (.outward habove.hops)
  case report =>
    exact fun id count => agree_through Place.isLawful_rlc rfl hrlc (.outward (habove.report id count))

theorem agree_arq (harq : .arq ∉ within) (hrlc : .rlc ∉ within) (hnet : .net ∉ within) :
    ArqAbove.Agree (Runs within) := by
  have habove : RlcAbove.Agree (Runs (.arq :: within)) := agree_rlc (by simp [hrlc]) (by simp [hnet])
  constructor
  case request =>
    exact fun bits dest => agree_through Place.isLawful_arq rfl harq
      (ArqLayer.agree_request agree_journal habove bits dest)
  case receive =>
    exact fun packet => agree_through Place.isLawful_arq rfl harq
      (ArqLayer.agree_receive agree_journal habove packet)
  case inject =>
    exact fun packet => agree_through Place.isLawful_arq rfl harq (.outward (habove.inject packet _))
  case linkUp =>
    exact fun id => agree_through Place.isLawful_arq rfl harq (ArqLayer.agree_linkUp agree_journal id)
  case linkDown =>
    exact fun id => agree_through Place.isLawful_arq rfl harq
      (ArqLayer.agree_linkDown agree_journal id)
  case hasMore =>
    exact fun dest => agree_through Place.isLawful_arq rfl harq
      (ArqLayer.agree_bySelective (SelectiveRepeat.agree_hasMore habove dest) (habove.hasMore dest))
  case tick => exact fun slots => agree_through Place.isLawful_arq rfl harq (.change _)
  case hops => exact agree_through Place.isLawful_arq rfl harq (.outward habove.hops)
  case report =>
    exact fun id count => agree_through Place.isLawful_arq rfl harq (.outward (habove.report id count))

theorem agree_macAbove (hmac : .mac ∉ within) (harq : .arq ∉ within) (hrlc : .rlc ∉ within)
    (hnet : .net ∉ within) : MacAbove.Agree (Runs within) := by
  have habove : ArqAbove.Agree (Runs (.mac :: within)) :=
    agree_arq (by simp [harq]) (by simp [hrlc]) (by simp [hnet])
  exact fun packet frequency => agree_through Place.isLawful_mac rfl hmac
    (MacLayer.agree_receive agree_journal habove packet frequency)

theorem agree_phy (hphy : .phy ∉ within) : PhyBelow.Agree (Runs within) where
  transmit packet frequency := agree_through Place.isLawful_phy rfl hphy
    (PhyLayer.agree_transmit agree_journal packet frequency)
  datarate := agree_through Place.isLawful_phy rfl hphy (.bind .own fun _ => .pure _)

theorem agree_macBelow (hmac : .mac ∉ within) : MacBelow.Agree (Runs within) := fun bits dest =>
  agree_through Place.isLawful_mac rfl hmac (MacLayer.agree_notifyOutgoing agree_journal bits dest)

theorem agree_arqBelow (harq : .arq ∉ within) (hmac : .mac ∉ within) :
    ArqBelow.Agree (Runs within) := by
  have hbelow : MacBelow.Agree (Runs (.arq :: within)) := agree_macBelow (by simp [hmac])
  exact fun bits dest => agree_through Place.isLawful_arq rfl harq (.outward (hbelow bits dest))

/-- A datagram goes down, and only as far as the RLC. -/
theorem agree_rlcBelow (hrlc : .rlc ∉ within) (harq : .arq ∉ within) (hmac : .mac ∉ within) :
    RlcBelow.Agree (Runs within) := by
  have hbelow : ArqBelow.Agree (Runs (.rlc :: within)) :=
    agree_arqBelow (by simp [harq]) (by simp [hmac])
  exact fun datagram dest priority => agree_through Place.isLawful_rlc rfl hrlc
    (RlcLayer.agree_byKind (SegmentingRlc.agree_accept hbelow datagram dest priority)
      (StubRlc.agree_accept agree_journal hbelow datagram dest priority))

end Recorded

/-! ## Calls of a host -/

/-- What a host asks of a station, as a call that may fail. -/
def Station.ask : StationCall → Call Station Unit
  | .send datagram dest priority => send datagram dest priority
  | .update => update
  | .receive t => receive t
  | .removeLink id => removeLink id
  | .setPosition position quality => onSlotMac (Call.change fun m => m.setPosition position quality)
  | .tune frequency => Place.phy.enter (PhyLayer.tuneTo frequency)
  | .drain => modify fun s => s.drain.2
  | .collect => modify fun s => s.collect.2

theorem Station.ask_snd (s : Station) (call : StationCall) : (ask call s).2 = s.step call := by
  cases call <;> rfl

namespace Recorded

def onSlotMac (step : Call (Inside SlotMac Recorded) α) : Call Recorded α :=
  enter .mac do
    match ← Call.own with
    | .slotted m => Call.embed .slotted m step
    | .stub _ => Call.fail (.unwired Layer.mac.name)

/-- Asks what `Station.ask` asks. -/
def ask : StationCall → Call Recorded Unit
  | .send datagram dest priority => enter .net (NetLayer.send datagram dest priority)
  | .update => do
    enter .phy (Call.change (PhyLayer.tick 1))
    onSlotMac SlotMac.update
  | .receive t => enter .phy (PhyLayer.hear t)
  | .removeLink id => onSlotMac (SlotMac.removeLink id)
  | .setPosition position quality => onSlotMac (Call.change fun m => m.setPosition position quality)
  | .tune frequency => enter .phy (PhyLayer.tuneTo frequency)
  | .drain => modify fun r => { r with station := r.station.drain.2 }
  | .collect => modify fun r => { r with station := r.station.collect.2 }

def run (r : Recorded) (calls : List StationCall) : Recorded :=
  calls.foldl (fun r call => (ask call r).2) r

theorem Runs.onSlotMac {m : SlotMac} (h : Runs [] s r) (hm : s.mac = .idle (.slotted m))
    {step : Call (Inside SlotMac Station) α} {other : Call (Inside SlotMac Recorded) α}
    (hstep : Agree (Beside (Runs [.mac])) step other) :
    Answers (Runs []) (Station.onSlotMac step s) (onSlotMac other r) := by
  refine h.enter Place.isLawful_mac (by simp) fun layer hlayer s' r' h' => ?_
  obtain rfl : .slotted m = layer := by
    rw [show Place.mac.get s = s.mac from rfl, hm] at hlayer
    exact Seat.idle.inj hlayer
  exact Agree.embed m hstep _ _ ⟨rfl, h'⟩

/-- Between the calls of a host no call is in any layer. -/
theorem Runs.of_isWhole {id : Address} (hs : s.IsWhole id) (hstation : r.station = s)
    (hcalls : r.within = []) (hclear : ∀ c ∈ r.crossings, c.EntersIdle) : Runs [] s r := by
  obtain ⟨x, m, p, rfl, -⟩ := hs
  exact ⟨hstation, hcalls, Joint.mem_all, fun l => by cases l <;> rfl, hclear⟩

/-- **One call.** What a host asks of a whole station is answered as it is without being taken down,
and takes down nothing bad. -/
theorem Runs.ask {id : Address} (h : Runs [] s r) (hs : s.IsWhole id) (call : StationCall) :
    Answers (Runs []) (Station.ask call s) (ask call r) := by
  have harq : ArqAbove.Agree (Runs [.mac]) := agree_arq (by decide) (by decide) (by decide)
  have hphy : PhyBelow.Agree (Runs [.mac]) := agree_phy (by decide)
  have hwhole := hs.step call
  obtain ⟨x, m, p, rfl, -⟩ := hs
  cases call with
  | send datagram dest priority =>
    have hbelow : RlcBelow.Agree (Runs [.net]) := agree_rlcBelow (by decide) (by decide) (by decide)
    exact h.enter Place.isLawful_net (List.not_mem_nil) fun layer _ s' r' h' =>
      Agree.outward (hbelow datagram dest priority) _ _ ⟨rfl, h'⟩
  | update =>
    have hticked : Answers (Runs []) (Place.phy.enter (Call.change (PhyLayer.tick 1)) (x.station m p))
        (Recorded.enter .phy (Call.change (PhyLayer.tick 1)) r) :=
      h.enter Place.isLawful_phy List.not_mem_nil fun layer _ s' r' h' => Agree.change _ _ _ ⟨rfl, h'⟩
    -- The call has left the PHY again, so the MAC can transmit in the next one.
    refine hticked.bind fun _ s' r' hs' h' => ?_
    have hm : s'.mac = .idle (.slotted m) := by
      cases hs'
      rfl
    exact h'.onSlotMac hm (SlotMac.agree_update harq hphy)
  | receive t =>
    have habove : MacAbove.Agree (Runs [.phy]) :=
      agree_macAbove (by decide) (by decide) (by decide) (by decide)
    exact h.enter Place.isLawful_phy List.not_mem_nil fun layer _ s' r' h' =>
      Agree.outward (habove t.packet t.frequency) _ _ ⟨rfl, h'⟩
  | removeLink other =>
    have hasked := h.onSlotMac rfl (SlotMac.agree_removeLink harq other)
    exact hasked
  | setPosition position quality =>
    exact h.onSlotMac rfl (Agree.change _)
  | tune frequency =>
    have hasked : Answers (Runs []) (Place.phy.enter (PhyLayer.tuneTo frequency) (x.station m p))
        (Recorded.enter .phy (PhyLayer.tuneTo frequency) r) :=
      h.enter Place.isLawful_phy List.not_mem_nil fun layer _ s' r' h' =>
        PhyLayer.agree_tuneTo frequency _ _ ⟨rfl, h'⟩
    exact hasked
  | drain => exact ⟨rfl, .of_isWhole hwhole (congrArg (·.drain.2) h.station) h.calls h.clear, .ok _⟩
  | collect =>
    exact ⟨rfl, .of_isWhole hwhole (congrArg (·.collect.2) h.station) h.calls h.clear, .ok _⟩

/-- A recorded run is a run of the station, and takes down nothing bad. -/
theorem Runs.run {id : Address} (h : Runs [] s r) (hs : s.IsWhole id) (calls : List StationCall) :
    Runs [] (s.run calls) (r.run calls) := by
  induction calls generalizing s r with
  | nil => exact h
  | cons call rest ih =>
    have hasked := (h.ask hs call).related
    rw [Station.ask_snd] at hasked
    exact ih hasked (hs.step call)

end Recorded

namespace Station

/-- **No way round.** In every run of a station the calls through its bindings are those that are taken
down: each enters a layer that is not in the middle of a call, and none fails for a reason of the
wiring. Nor does any call of the host, at any time. -/
theorem crossings_enterIdle {config : StationConfig} {s : Station} (hs : ofConfig config = .ok s)
    (calls : List StationCall) : ((Recorded.ofStation s).run calls).station = s.run calls ∧
      (∀ c ∈ ((Recorded.ofStation s).run calls).crossings, c.EntersIdle) ∧
      ∀ call, Avoids Fault.isOfWiring (ask call (s.run calls)).1 := by
  obtain ⟨-, -, rfl⟩ := ofConfig_eq_ok_iff.1 hs
  have hmade : Recorded.Runs [] (made config) (.ofStation (made config)) :=
    .of_isWhole (isWhole_made config) rfl rfl nofun
  have hruns := hmade.run (isWhole_made config) calls
  refine ⟨hruns.station, hruns.clear, fun call => ?_⟩
  exact (hruns.ask ((isWhole_made config).run calls) call).avoids

/-- Station 1, with room for one datagram for each destination. -/
def cramped : StationConfig :=
  { (default : StationConfig) with maxQueued := 1, mac := ⟨⟨1⟩, 0, 0, 0⟩ }

/-- Station 2 broadcasts a datagram and grants a link to station 1. -/
def grant : Packet := .ofMessages [⟨some (.base (.ofSource ⟨2⟩)), none⟩,
  ⟨some (.broadcast .whole), some (.segment ⟨⟨#[9]⟩, 0, 8⟩)⟩,
  ⟨some (.linkReply { (default : UnicastHeader) with dest := ⟨1⟩ } default), none⟩]

/-- There is no room for the second datagram; the first one leaves on a link, which is torn down. -/
def crampedCalls : List StationCall :=
  [.send ⟨#[7]⟩ ⟨2⟩ 0, .send ⟨#[8]⟩ ⟨2⟩ 0, .update, .receive ⟨grant, 0⟩, .update, .removeLink ⟨2⟩]

/-- A call that fails in the RLC, and one that comes to the network layer from the PHY, are among the
calls of such a run. -/
theorem crossings_enterIdle_cramped :
    (∀ c ∈ ((Recorded.ofStation (made cramped)).run crampedCalls).crossings, c.EntersIdle) ∧
      ⟨.netLower, [.net], some (.layer (.queueFull ⟨2⟩))⟩ ∈
        ((Recorded.ofStation (made cramped)).run crampedCalls).crossings ∧
      ⟨.rlcUpper, [.rlc, .arq, .mac, .phy], none⟩ ∈
        ((Recorded.ofStation (made cramped)).run crampedCalls).crossings :=
  ⟨(crossings_enterIdle (show ofConfig cramped = .ok (made cramped) from rfl) crampedCalls).2.1,
    by decide +kernel, by decide +kernel⟩

end Station

end DataLink
