import DataLink.Proofs.Station.Slots
import DataLink.Station.Host

/-!
# The link of a station

What a host asks of a station that was put together by `Station.ofConfig`, seen from the link to one
peer: sending leaves the link as it is, a slot may let it answer, a received packet is taken in by it,
and a tear-down leaves a fresh link. `Station.handsUp` is what the ARQ hands up in between.
-/

namespace DataLink

/-! ## Stations -/

/-- A station of the layers that this library has, between calls. -/
def Upper.station (x : Upper) (m : SlotMac) (p : OutboxPhy) : Station :=
  { x.around (.idle (.outbox p)) with mac := .idle (.slotted m) }

namespace Station

/-- The link to `peer`. -/
def link (peer : Address) (s : Station) : Link :=
  match s.arq with
  | .idle (.selective a) => a.link peer
  | _ => .fresh

/-- Collects what was transmitted. -/
def drain (s : Station) : List Transmission × Station :=
  match s.phy with
  | .idle (.outbox p) => (p.drain.1, { s with phy := .idle (.outbox p.drain.2) })
  | _ => ([], s)

/-- What the ARQ hands up to its RLC, which takes all of it, when a transmission is received. -/
def handsUp (t : Transmission) (s : Station) : List Packet :=
  match s.arq, s.mac, t.packet.arqHeader? with
  | .idle (.selective a), .idle (.slotted m), some header =>
    if m.admits t.packet ∧ (receive t s).1.isOk then (a.takeIn t.packet.origin header t.packet).1
    else []
  | _, _, _ => []

/-- The station `id` is between calls, protects its frames and serves nobody but one peer. -/
def Fits (window : Nat) (id peer : Address) (s : Station) : Prop :=
  ∃ x m p, s = Upper.station x m p ∧ x.IsReady window ∧ m.Serves id peer ∧ p.outbox = []

theorem drainOutbox_eq (h : Hosted) :
    h.drainOutbox = (h.station.drain.1, { h with station := h.station.drain.2 }) := by
  obtain ⟨⟨net, rlc, arq, mac, phy, wired, journal⟩, config⟩ := h
  rcases phy with (p | p) | _ | _ | _ <;> rfl

variable {window : Nat} {id peer : Address} {s : Station}

/-- The station that is made of a valid configuration. -/
def made (config : StationConfig) : Station :=
  Upper.station ⟨.empty config.isGround, .empty config.maxQueued, ⟨config.arq, 0, .empty⟩⟩
    ⟨config.mac, 0, [.broadcast], [], [], .empty, .empty, .empty, default, default, false, []⟩
    (.ofConfig config.phy)

theorem ofConfig_eq_ok_iff {config : StationConfig} : ofConfig config = .ok s ↔
    (0 < config.arq.windowSize ∧ config.arq.windowSize ≤ 127) ∧ config.mac.id.isSymbolic = false ∧
      s = made config := by
  constructor
  · intro h
    obtain ⟨arq, harq, h⟩ := bind_eq_ok.1 h
    obtain ⟨mac, hmac, h⟩ := bind_eq_ok.1 h
    rw [mapError_eq_ok] at harq hmac h
    obtain ⟨hwindow, rfl⟩ := SelectiveRepeat.ofConfig_eq_ok_iff.1 harq
    rw [SlotMac.ofConfig] at hmac
    split at hmac
    · cases hmac
    · next hid =>
      cases hmac
      cases h
      exact ⟨hwindow, Bool.not_eq_true _ ▸ hid, rfl⟩
  · rintro ⟨hwindow, hid, rfl⟩
    have harq := SelectiveRepeat.ofConfig_eq_ok_iff.2 ⟨hwindow, rfl⟩
    rw [ofConfig, harq, SlotMac.ofConfig, hid]
    rfl

theorem fits_made {config : StationConfig} (hprotects : config.arq.protectUnicast = true)
    (peer : Address) : (made config).Fits config.arq.windowSize config.mac.id peer := by
  refine ⟨_, _, _, rfl, ⟨rfl, hprotects, fun _ _ hget => by cases hget⟩,
    ⟨rfl, ?_⟩, rfl⟩
  intro dest hdest
  exact Or.inl (List.mem_singleton.1 hdest)

/-! ## Calls -/

theorem send_apply (x : Upper) (m : SlotMac) (p : OutboxPhy) (datagram : Datagram) (dest : Address)
    (priority : Nat) : send datagram dest priority (x.station m p) =
      match SegmentingRlc.accept datagram dest priority
        ⟨x.rlc, { x.station m p with net := .entered, rlc := .entered }⟩ with
      | (r, after) => (r, { after.around with
        rlc := after.around.rlc.leave (.segmenting after.layer)
        net := after.around.net.leave (.routing x.net) }) := rfl

theorem update_apply (x : Upper) (m : SlotMac) (p : OutboxPhy) : update (x.station m p) =
    match SlotMac.update ⟨m, x.around (.idle (.outbox (p.tick 1)))⟩ with
    | (r, after) => (r, { after.around with
      mac := after.around.mac.leave (.slotted after.layer) }) := rfl

theorem receive_apply (x : Upper) (m : SlotMac) (p : OutboxPhy) (t : Transmission) :
    receive t (x.station m p) =
      match SlotMac.receive t.packet ⟨m, x.around .entered⟩ with
      | (r, after) => (r, { after.around with
        mac := after.around.mac.leave (.slotted after.layer)
        phy := after.around.phy.leave (.outbox p) }) := rfl

theorem handsUp_apply (x : Upper) (m : SlotMac) (p : OutboxPhy) (t : Transmission) :
    (x.station m p).handsUp t = match t.packet.arqHeader? with
      | some header =>
        if m.admits t.packet ∧ (SlotMac.receive t.packet ⟨m, x.around .entered⟩).1.isOk then
          (x.arq.takeIn t.packet.origin header t.packet).1
        else []
      | none => [] := by
  rw [handsUp]
  cases t.packet.arqHeader? <;> rfl

theorem removeLink_apply (x : Upper) (m : SlotMac) (p : OutboxPhy) (other : Address) :
    removeLink other (x.station m p) =
      match SlotMac.removeLink other ⟨m, x.around (.idle (.outbox p))⟩ with
      | (r, after) => (r, { after.around with
        mac := after.around.mac.leave (.slotted after.layer) }) := rfl

/-- A datagram is queued and the MAC takes note of it, or everything stays as it is. -/
theorem send_cases (x : Upper) (m : SlotMac) (p : OutboxPhy) (datagram : Datagram)
    (dest : Address) (priority : Nat) :
    (∃ bits, send datagram dest priority (x.station m p) = (.ok (),
      Upper.station { x with rlc := x.rlc.enqueue datagram dest priority }
        (m.notifyOutgoing bits dest) p)) ∨
    ∃ e, send datagram dest priority (x.station m p) = (.error e, x.station m p) := by
  rw [send_apply, SegmentingRlc.accept_eq]
  by_cases hdest : dest = .unset ∨ dest = .dme
  · rw [if_pos hdest]
    exact Or.inr ⟨_, rfl⟩
  · rw [if_neg hdest]
    by_cases hfull : x.rlc.maxQueued ≤ x.rlc.numQueued dest
    · rw [if_pos hfull]
      exact Or.inr ⟨_, rfl⟩
    · rw [if_neg hfull]
      exact Or.inl ⟨_, rfl⟩

/-- Sending a datagram changes what is queued, and what the MAC has noted of it. -/
theorem exists_send (x : Upper) (m : SlotMac) (p : OutboxPhy) (datagram : Datagram)
    (dest : Address) (priority : Nat) : ∃ (rlc : SegmentingRlc) (after : SlotMac),
      (send datagram dest priority (x.station m p)).2 = Upper.station { x with rlc } after p ∧
        rlc.injected = x.rlc.injected ∧
        (after = m ∨ ∃ bits, after = m.notifyOutgoing bits dest) := by
  rcases send_cases x m p datagram dest priority with ⟨bits, hsend⟩ | ⟨e, hsend⟩
  · exact ⟨x.rlc.enqueue datagram dest priority, _, by rw [hsend], rfl, Or.inr ⟨bits, rfl⟩⟩
  · exact ⟨x.rlc, m, by rw [hsend], rfl, Or.inl rfl⟩

theorem Fits.send (h : s.Fits window id peer) (datagram : Datagram) (dest : Address)
    (priority : Nat) : (Station.send datagram dest priority s).2.Fits window id peer ∧
      (Station.send datagram dest priority s).2.link peer = s.link peer := by
  obtain ⟨x, m, p, rfl, hready, hserves, hout⟩ := h
  obtain ⟨rlc, after, hsend, hinjected, hafter⟩ := exists_send x m p datagram dest priority
  have hserves' : after.Serves id peer := by
    rcases hafter with rfl | ⟨bits, rfl⟩
    · exact hserves
    · simp only [SlotMac.notifyOutgoing]
      split <;> exact ⟨hserves.id, hserves.schedule⟩
  have hinjects : rlc.InjectsPlain := by
    intro key waiting hget
    rw [hinjected] at hget
    exact hready.injects key waiting hget
  rw [hsend]
  exact ⟨⟨{ x with rlc }, after, p, rfl, ⟨hready.window, hready.protects, hinjects⟩, hserves',
    hout⟩, rfl⟩

/-- In a slot the station sends a plain packet, or an answer of the link, or nothing. -/
theorem Fits.update (h : s.Fits window id peer) (hpeer : peer.isSymbolic = false)
    (hheld : (s.link peer).HoldsFrames) :
    (Station.update s).2.drain.2.Fits window id peer ∧
      SlotMac.Emits window id (s.link peer) (Station.update s).2.drain.1
        ((Station.update s).2.drain.2.link peer) := by
  obtain ⟨x, m, p, rfl, hready, hserves, hout⟩ := h
  have hholds : SlotMac.Holds window id peer (x.arq.link peer) (.idle (.outbox (p.tick 1)))
      ⟨m, x.around (.idle (.outbox (p.tick 1)))⟩ := ⟨x, rfl, hready, rfl, hserves⟩
  have hsent := hholds.update (show (p.tick 1).outbox = [] from hout) hpeer hheld
  rw [update_apply]
  generalize SlotMac.update ⟨m, x.around (.idle (.outbox (p.tick 1)))⟩ = answer at hsent ⊢
  obtain ⟨r, m', around⟩ := answer
  obtain ⟨x', p', haround, hready', hserves', hemits⟩ := hsent
  change around = _ at haround
  subst haround
  exact ⟨⟨x', m', { p' with outbox := [] }, rfl, hready', hserves', rfl⟩, hemits⟩

theorem Fits.receive (h : s.Fits window id peer) {t : Transmission}
    (horigin : t.packet.origin = peer) : (Station.receive t s).2.Fits window id peer ∧
      (((Station.receive t s).2.link peer = s.link peer ∧ s.handsUp t = []) ∨
        ∃ header, t.packet.arqHeader? = some header ∧
          (Station.receive t s).2.link peer =
            ((s.link peer).takeIn header t.packet window).2 ∧
          ((∀ p ∈ ((s.link peer).takeIn header t.packet window).1, p.IsSound) →
            s.handsUp t = ((s.link peer).takeIn header t.packet window).1)) := by
  obtain ⟨x, m, p, rfl, hready, hserves, hout⟩ := h
  have hholds : SlotMac.Holds window id peer (x.arq.link peer) .entered ⟨m, x.around .entered⟩ :=
    ⟨x, rfl, hready, rfl, hserves⟩
  obtain ⟨l, htakes, hafter⟩ := hholds.receive horigin
  rw [handsUp_apply, receive_apply]
  generalize SlotMac.receive t.packet ⟨m, x.around .entered⟩ = answer at htakes hafter ⊢
  obtain ⟨r, m', around⟩ := answer
  obtain ⟨x', haround, hready', hlink', hserves'⟩ := hafter
  change around = _ at haround
  subst haround
  refine ⟨⟨x', m', p, rfl, hready', hserves', hout⟩, ?_⟩
  cases htakes with
  | nothing hnothing =>
    refine Or.inl ⟨hlink', ?_⟩
    cases hheader : t.packet.arqHeader? with
    | none => rfl
    | some header =>
      simp only
      split
      · next hok =>
        rcases r with _ | _
        · cases hok.2
        · rw [hnothing rfl hok.1] at hheader
          cases hheader
      · rfl
  | @takeIn header hadmitted hheader hok =>
    refine Or.inr ⟨header, hheader, hlink', ?_⟩
    intro hsound
    have hr : r = .ok () := hok hsound
    rw [hheader, hr]
    simp only
    rw [if_pos ⟨hadmitted, rfl⟩, horigin, SelectiveRepeat.takeIn_apply, hready.window]
    rfl

/-- A tear-down of this link leaves a fresh one, and any other call leaves it as it is. -/
theorem Fits.removeLink (h : s.Fits window id peer) (other : Address) :
    (Station.removeLink other s).2.Fits window id peer ∧
      (Station.removeLink other s).2.link peer =
        if (Station.removeLink other s).1.isOk ∧ other = peer then .fresh else s.link peer := by
  obtain ⟨x, m, p, rfl, hready, hserves, hout⟩ := h
  have hholds : SlotMac.Holds window id peer (x.arq.link peer) (.idle (.outbox p))
      ⟨m, x.around (.idle (.outbox p))⟩ := ⟨x, rfl, hready, rfl, hserves⟩
  have hafter := hholds.removeLink other
  rw [removeLink_apply]
  generalize SlotMac.removeLink other ⟨m, x.around (.idle (.outbox p))⟩ = answer at hafter ⊢
  obtain ⟨r, m', around⟩ := answer
  obtain ⟨x', haround, hready', hlink', hserves'⟩ := hafter
  change around = _ at haround
  subst haround
  exact ⟨⟨x', m', p, rfl, hready', hserves', hout⟩, hlink'⟩

end Station

end DataLink
