import DataLink.Proofs.Neighbors
import DataLink.Proofs.Mac.Calls
import DataLink.Proofs.Rlc.Ledger
import DataLink.Proofs.Station.Calls

/-!
# Stations between calls

A station that was put together by `Station.ofConfig` has its five layers in their seats and all of
its bindings wired, and its address never changes: it is *whole* (`Station.IsWhole`). Whatever a
host asks of it leaves it whole, whether it succeeds or not, so every state of a run is
(`Station.IsWhole.run`).
-/

namespace DataLink

/-! ## Queues -/

theorem length_cut_le (header room : Nat) (items : List (Nat × Outgoing)) :
    (cut header room items).2.length ≤ items.length := by
  fun_induction cut header room items with
  | case1 room => exact Nat.le_refl 0
  | case2 room priority o rest hroom => exact Nat.le_refl _
  | case3 room priority o rest hroom piece hleft pieces queued hcut ih =>
    rw [hcut] at ih
    exact Nat.le_succ_of_le ih
  | case4 room priority o rest hroom piece hleft => exact Nat.le_refl _

theorem SegmentingRlc.numQueued_requestBurst_le {ε : Type} (bits : Nat) (dest : Address)
    (frame : Nat) (s : Inside SegmentingRlc ε) (other : Address) :
    (requestBurst bits dest frame s).2.layer.numQueued other ≤ s.layer.numQueued other := by
  cases hserves : s.layer.servesControl bits dest frame with
  | true =>
    obtain ⟨injected, hafter⟩ := requestBurst_of_servesControl hserves
    rw [hafter]
    exact Nat.le_refl _
  | false =>
    rcases requestBurst_of_not_servesControl hserves with h | ⟨e, h⟩ | ⟨packet, after, hfill, h⟩
    · exact Nat.le_of_eq (by rw [h])
    · exact Nat.le_of_eq (by rw [h])
    · rw [h, fill_eq_ok hfill, numQueued, queue_setQueue]
      split
      · next hdest =>
        rw [← hdest]
        exact length_cut_le _ _ _
      · exact Nat.le_refl _

/-! ## The layers above the MAC -/

namespace Upper

variable (phy : Seat PhyLayer)

/-- A call in the ARQ has the other layers of a station around itself, and no queue of its RLC is
longer than in `before`. -/
def IsBelow (phy : Seat PhyLayer) (before : SegmentingRlc) (s : Inside SelectiveRepeat Station) :
    Prop :=
  ∃ x : Upper, s.around = x.below phy ∧ ∀ dest, x.rlc.numQueued dest ≤ before.numQueued dest

/-- Building a packet leaves the layers in their seats and makes no queue longer. -/
theorem exists_request (x : Upper) (bits : Nat) (dest : Address) :
    ∃ after : Upper, (ArqAbove.request bits dest (x.around phy)).2 = after.around phy ∧
      ∀ other, after.rlc.numQueued other ≤ x.rlc.numQueued other := by
  have hrlc : (Call.outward (RlcAbove.requestBurst bits dest 0) :
      Call (Inside SelectiveRepeat Station) Packet).Preserves (IsBelow phy x.rlc) := by
    refine .outward fun s ⟨y, hy, hle⟩ => ⟨?_, fun _ _ => trivial⟩
    have haround := SegmentingRlc.requestBurst_around bits dest 0
      ⟨y.rlc, { y.below phy with rlc := .entered }⟩
    have hqueues := SegmentingRlc.numQueued_requestBurst_le bits dest 0
      ⟨y.rlc, { y.below phy with rlc := .entered }⟩
    rw [hy, requestRlc_apply]
    generalize SegmentingRlc.requestBurst bits dest 0 _ = answer at haround hqueues ⊢
    obtain ⟨r, rlc, around⟩ := answer
    change around = _ at haround
    subst haround
    exact ⟨{ y with rlc }, rfl, fun other => Nat.le_trans (hqueues other) (hle other)⟩
  have hchange : ∀ a : SelectiveRepeat, (Call.change fun _ => a :
      Call (Inside SelectiveRepeat Station) Unit).Preserves (IsBelow phy x.rlc) :=
    fun a => .change fun _ hs => hs
  have hkeeps : (SelectiveRepeat.requestBurst bits dest 0 :
      Call (Inside SelectiveRepeat Station) Packet).Preserves (IsBelow phy x.rlc) := by
    refine .bind .look fun a _ => .ite ?_ hrlc
    refine .bind (.ofExcept (Q := fun _ => True) fun _ _ => trivial) fun found _ => ?_
    cases found with
    | some found => exact .bind (hchange found.2) fun _ _ => .pure trivial
    | none =>
      refine .bind hrlc fun packet _ => ?_
      refine .bind (.ofExcept (Q := fun _ => True) fun _ _ => trivial) fun found _ => ?_
      exact .bind (hchange found.2) fun _ _ => .pure trivial
  rw [request_apply]
  obtain ⟨y, hy, hle⟩ := (hkeeps ⟨x.arq, x.below phy⟩ ⟨x, rfl, fun _ => Nat.le_refl _⟩).1
  generalize SelectiveRepeat.requestBurst bits dest 0 ⟨x.arq, x.below phy⟩ = answer at hy ⊢
  obtain ⟨r, arq, around⟩ := answer
  exact ⟨{ y with arq }, by rw [show around = y.below phy from hy]; rfl, hle⟩

theorem exists_receive (x : Upper) (packet : Packet) :
    ∃ after : Upper, (ArqAbove.receive packet (x.around phy)).2 = after.around phy ∧
      after.rlc.queues = x.rlc.queues := by
  rw [receive_apply, SelectiveRepeat.receive_apply]
  cases packet.arqHeader? with
  | none =>
    obtain ⟨result, inbox, streams, hrlc, -⟩ := receiveRlc_cases phy x packet
    simp only [hrlc]
    exact ⟨{ x with net := { x.net with inbox }, rlc := { x.rlc with streams } }, rfl, rfl⟩
  | some header =>
    obtain ⟨result, inbox, streams, hup, -⟩ := handUpArq phy x
      (x.arq.takeIn packet.origin header packet).2 (x.arq.takeIn packet.origin header packet).1
    simp only [hup]
    exact ⟨⟨{ x.net with inbox }, { x.rlc with streams },
      (x.arq.takeIn packet.origin header packet).2⟩, rfl, rfl⟩

/-- Whatever the MAC asks of its neighbors leaves the layers in their seats, and makes no queue
longer. -/
theorem exists_after {seat : OutboxPhy → Seat PhyLayer}
    (hseat : seat = (fun p => .idle (.outbox p)) ∨ seat = fun _ => .entered) {α : Type}
    {step : Call Station α} (hstep : MacAsks step) (x : Upper) (p : OutboxPhy) :
    ∃ (after : Upper) (q : OutboxPhy), (step (x.around (seat p))).2 = after.around (seat q) ∧
      ∀ dest, after.rlc.numQueued dest ≤ x.rlc.numQueued dest := by
  have hsame : ∀ dest, x.rlc.numQueued dest ≤ x.rlc.numQueued dest := fun _ => Nat.le_refl _
  cases hstep with
  | request bits dest =>
    obtain ⟨y, hy, hle⟩ := x.exists_request (seat p) bits dest
    exact ⟨y, p, hy, hle⟩
  | receive packet =>
    obtain ⟨y, hy, hqueues⟩ := x.exists_receive (seat p) packet
    refine ⟨y, p, hy, fun dest => ?_⟩
    rw [SegmentingRlc.numQueued, SegmentingRlc.queue, hqueues]
    exact hsame dest
  | inject packet => exact ⟨_, p, congrArg Prod.snd (inject_apply _ x packet), hsame⟩
  | linkUp other => exact ⟨_, p, congrArg Prod.snd (linkUp_apply _ x other), hsame⟩
  | linkDown other =>
    rw [linkDown_apply]
    cases x.arq.linkDown other with
    | ok arq => exact ⟨{ x with arq }, p, rfl, hsame⟩
    | error e => exact ⟨x, p, rfl, hsame⟩
  | hasMore dest =>
    obtain ⟨more, hmore⟩ := hasMore_apply (seat p) x dest
    exact ⟨x, p, congrArg Prod.snd hmore, hsame⟩
  | tick slots => exact ⟨_, p, congrArg Prod.snd (tick_apply _ x slots), hsame⟩
  | hops => exact ⟨x, p, congrArg Prod.snd (hops_apply _ x), hsame⟩
  | report other count => exact ⟨_, p, congrArg Prod.snd (report_apply _ x other count), hsame⟩
  | transmit packet frequency =>
    rcases hseat with rfl | rfl
    · exact ⟨x, p.transmit packet frequency, rfl, hsame⟩
    · exact ⟨x, p, rfl, hsame⟩
  | datarate =>
    rcases hseat with rfl | rfl
    · exact ⟨x, p, rfl, hsame⟩
    · exact ⟨x, p, rfl, hsame⟩

end Upper

/-! ## What is heard -/

/-- The network layer once it was told of the beacon in a packet. -/
def RoutingNet.hear (n : RoutingNet) (packet : Packet) : RoutingNet :=
  match packet.beacon? with
  | some beacon => n.report packet.origin beacon.hops.val
  | none => n

/-! ## Calls in the MAC -/

namespace SlotMac

/-- A call is in the MAC of station `id`, and its PHY is in a state of `seat`. -/
def IsWithin (id : Address) (seat : OutboxPhy → Seat PhyLayer) (s : Inside SlotMac Station) :
    Prop :=
  ∃ (x : Upper) (p : OutboxPhy), s.around = x.around (seat p) ∧ s.layer.config.id = id

variable {id : Address} {seat : OutboxPhy → Seat PhyLayer}

/-- The layers stay where they are, whether the PHY can be reached or the call came from it. -/
theorem undisturbed_isWithin
    (hseat : seat = (fun p => .idle (.outbox p)) ∨ seat = fun _ => .entered) (id : Address) :
    Undisturbed (IsWithin id seat) where
  change hconfig _ _ := fun ⟨x, p, haround, hid⟩ => ⟨x, p, haround, by rw [hconfig, hid]⟩
  outward := by
    intro α step hstep
    refine .outward fun s ⟨x, p, haround, hid⟩ => ⟨?_, fun _ _ => trivial⟩
    obtain ⟨y, q, hafter, -⟩ := x.exists_after hseat hstep p
    exact ⟨y, q, by rw [haround, hafter], hid⟩

/-- In a station nothing keeps the MAC from taking a packet down, and its beacon gets as far as the
network layer. -/
theorem takeDown_apply (packet : Packet) (m : SlotMac) (x : Upper) (phy : Seat PhyLayer) :
    takeDown packet ⟨m, x.around phy⟩ =
      (.ok (), ⟨{ m with neighbors := m.neighbors.hear packet m.slot },
        Upper.around phy { x with net := x.net.hear packet }⟩) := by
  have hbeacon : (summarize m.config.id packet).beacon = packet.beacon? := rfl
  unfold takeDown NeighborTable.hear RoutingNet.hear
  rw [Call.bind_apply, Call.own_apply]
  simp only
  rw [Call.bind_apply, Call.change_apply]
  simp only [hbeacon]
  cases packet.beacon? <;> rfl

end SlotMac

/-! ## Whole stations -/

/-- What a host asks of a station. -/
inductive StationCall where
  | send (datagram : Datagram) (dest : Address) (priority : Nat)
  | update
  | receive (t : Transmission)
  | removeLink (id : Address)
  | setPosition (position : Position) (quality : PositionQuality)
  | tune (frequency : Nat)
  /-- Collects what was transmitted. -/
  | drain
  /-- Collects what was received. -/
  | collect

namespace Station

/-- The station has its layers in their seats, and the address `id`. -/
def IsWhole (id : Address) (s : Station) : Prop :=
  ∃ x m p, s = Upper.station x m p ∧ m.config.id = id

/-- Collects what was received. -/
def collect (s : Station) : List (Address × Datagram) × Station :=
  match s.net with
  | .idle (.routing n) => (n.drain.1, { s with net := .idle (.routing n.drain.2) })
  | _ => ([], s)

def step (s : Station) : StationCall → Station
  | .send datagram dest priority => (send datagram dest priority s).2
  | .update => (update s).2
  | .receive t => (receive t s).2
  | .removeLink id => (removeLink id s).2
  | .setPosition position quality =>
    (onSlotMac (Call.change fun m => m.setPosition position quality) s).2
  | .tune frequency => (Place.phy.enter (PhyLayer.tuneTo frequency) s).2
  | .drain => s.drain.2
  | .collect => s.collect.2

def run (s : Station) (calls : List StationCall) : Station := calls.foldl step s

variable {id : Address} {s : Station}

theorem IsWhole.drainInbox_eq {h : Hosted} (hs : h.station.IsWhole id) : h.drainInbox =
    .ok (h.station.collect.1, { h with station := h.station.collect.2 }) := by
  obtain ⟨station, config⟩ := h
  obtain ⟨x, m, p, rfl, -⟩ := hs
  rfl

theorem isWhole_made (config : StationConfig) : (made config).IsWhole config.mac.id :=
  ⟨_, _, _, rfl, rfl⟩

theorem IsWhole.send (h : s.IsWhole id) (datagram : Datagram) (dest : Address) (priority : Nat) :
    (Station.send datagram dest priority s).2.IsWhole id := by
  obtain ⟨x, m, p, rfl, hid⟩ := h
  obtain ⟨rlc, after, hsend, -, hafter⟩ := exists_send x m p datagram dest priority
  rw [hsend]
  refine ⟨{ x with rlc }, after, p, rfl, ?_⟩
  rcases hafter with rfl | ⟨bits, rfl⟩
  · exact hid
  · simp only [SlotMac.notifyOutgoing]
    split <;> exact hid

theorem IsWhole.update (h : s.IsWhole id) : (Station.update s).2.IsWhole id := by
  obtain ⟨x, m, p, rfl, hid⟩ := h
  have hwithin := ((SlotMac.undisturbed_isWithin (Or.inl rfl) id).update
    ⟨m, x.around (.idle (.outbox (p.tick 1)))⟩ ⟨x, p.tick 1, rfl, hid⟩).1
  rw [update_apply]
  generalize SlotMac.update ⟨m, x.around (.idle (.outbox (p.tick 1)))⟩ = answer at hwithin ⊢
  obtain ⟨r, m', around⟩ := answer
  obtain ⟨x', p', rfl, hid'⟩ := hwithin
  exact ⟨x', m', p', rfl, hid'⟩

theorem IsWhole.receive (h : s.IsWhole id) (t : Transmission) :
    (Station.receive t s).2.IsWhole id := by
  obtain ⟨x, m, p, rfl, hid⟩ := h
  have hundisturbed : SlotMac.Undisturbed (SlotMac.IsWithin id fun _ => .entered) :=
    SlotMac.undisturbed_isWithin (Or.inr rfl) id
  have hkeeps : (SlotMac.receive t.packet : Call (Inside SlotMac Station) Unit).Preserves
      (SlotMac.IsWithin id fun _ => .entered) := hundisturbed.steady.receive (hundisturbed.establishLink
    fun _ ⟨x, p, haround, hid⟩ _ => ⟨x, p, haround, hid⟩)
  have hwithin := (hkeeps ⟨m, x.around .entered⟩ ⟨x, p, rfl, hid⟩).1
  rw [receive_apply]
  generalize SlotMac.receive t.packet ⟨m, x.around .entered⟩ = answer at hwithin ⊢
  obtain ⟨r, m', around⟩ := answer
  obtain ⟨x', _, rfl, hid'⟩ := hwithin
  exact ⟨x', m', p, rfl, hid'⟩

theorem IsWhole.removeLink (h : s.IsWhole id) (other : Address) :
    (Station.removeLink other s).2.IsWhole id := by
  obtain ⟨x, m, p, rfl, hid⟩ := h
  have hkeeps : (SlotMac.removeLink other : Call (Inside SlotMac Station) Unit).Preserves
      (SlotMac.IsWithin id fun p => .idle (.outbox p)) :=
    (SlotMac.undisturbed_isWithin (Or.inl rfl) id).steady.calm.removeLink
      fun _ ⟨x, p, haround, hid⟩ _ => ⟨x, p, haround, hid⟩
  have hwithin := (hkeeps ⟨m, x.around (.idle (.outbox p))⟩ ⟨x, p, rfl, hid⟩).1
  rw [removeLink_apply]
  generalize SlotMac.removeLink other ⟨m, x.around (.idle (.outbox p))⟩ = answer at hwithin ⊢
  obtain ⟨r, m', around⟩ := answer
  obtain ⟨x', p', rfl, hid'⟩ := hwithin
  exact ⟨x', m', p', rfl, hid'⟩

theorem tune_apply (x : Upper) (m : SlotMac) (p : OutboxPhy) (frequency : Nat) :
    Place.phy.enter (PhyLayer.tuneTo frequency) (x.station m p) =
      match p.tune frequency with
      | .ok q => (.ok (), x.station m q)
      | .error e => (.error (.layer e), x.station m p) := by
  have htune : PhyLayer.tune frequency (.outbox p) = (p.tune frequency).map .outbox := rfl
  change (match (PhyLayer.tuneTo frequency : Call (Inside PhyLayer Station) Unit)
    ⟨.outbox p, { x.station m p with phy := .entered }⟩ with
    | (r, after) => (r, { after.around with phy := after.around.phy.leave after.layer })) = _
  rw [PhyLayer.tuneTo, Call.bind_apply, Call.own_apply]
  simp only [Call.bind_apply, htune]
  cases p.tune frequency <;> rfl

theorem exists_tune (x : Upper) (m : SlotMac) (p : OutboxPhy) (frequency : Nat) :
    ∃ q, (Place.phy.enter (PhyLayer.tuneTo frequency) (x.station m p)).2 = x.station m q := by
  rw [tune_apply]
  cases p.tune frequency with
  | ok q => exact ⟨q, rfl⟩
  | error e => exact ⟨p, rfl⟩

theorem IsWhole.tune (h : s.IsWhole id) (frequency : Nat) :
    (Place.phy.enter (PhyLayer.tuneTo frequency) s).2.IsWhole id := by
  obtain ⟨x, m, p, rfl, hid⟩ := h
  obtain ⟨q, htuned⟩ := exists_tune x m p frequency
  exact ⟨x, m, q, htuned, hid⟩

theorem IsWhole.step (h : s.IsWhole id) (call : StationCall) : (s.step call).IsWhole id := by
  cases call with
  | send datagram dest priority => exact h.send datagram dest priority
  | update => exact h.update
  | receive t => exact h.receive t
  | removeLink other => exact h.removeLink other
  | tune frequency => exact h.tune frequency
  | setPosition position quality =>
    obtain ⟨x, m, p, rfl, hid⟩ := h
    exact ⟨x, m.setPosition position quality, p, rfl, hid⟩
  | drain =>
    obtain ⟨x, m, p, rfl, hid⟩ := h
    exact ⟨x, m, p.drain.2, rfl, hid⟩
  | collect =>
    obtain ⟨x, m, p, rfl, hid⟩ := h
    exact ⟨{ x with net := x.net.drain.2 }, m, p, rfl, hid⟩

theorem IsWhole.run (h : s.IsWhole id) (calls : List StationCall) : (s.run calls).IsWhole id := by
  induction calls generalizing s with
  | nil => exact h
  | cons call rest ih => exact ih (h.step call)

end Station

end DataLink
