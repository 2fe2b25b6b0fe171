import DataLink.Proofs.Station.Moves

/-!
# What a station sends

Only a slot sends anything. When the MAC is ready for it, one packet is sent at most (`Sends`): a
beacon if one is due, and otherwise what the layers above build for whoever has the turn.

A host may ask a station for anything at any time, and whether that succeeds or not, the station gets
there by moves (`Station.exists_moves`). So all that a run comes by is *reached* by moves from the
station as it was made (`Station.IsReached`), and what every move keeps holds there
(`IsReached.invariant`). What it transmits in its next slot is sent by a MAC that is ready for it
(`Station.exists_transmits`).
-/

namespace DataLink

open Relation

open Upper (Move Moves KnowsAlike)

namespace Packet

variable {p : Packet}

theorem length_sign (source : Address) (p : Packet) : (p.sign source).length = p.length := by
  simp only [sign, length]
  fun_induction signMessages source p.messages with
  | case1 => rfl
  | case2 h payload rest => rfl
  | case3 m rest hbase ih => simp only [List.map_cons, Word.total, ih]

theorem dest_sign (source : Address) (p : Packet) : (p.sign source).dest = p.dest := by
  have hcontains : ∀ t, (p.sign source).contains t = p.contains t := by
    intro t
    have hany : ∀ q : Packet, q.contains t = q.shape.any fun u => u = t := by
      intro q
      rw [contains, shape, List.any_map]
      rfl
    rw [hany, shape_sign, hany]
  rw [dest, hcontains, hcontains, unicastHeaders_sign, dest]

end Packet

/-! ## One slot -/

namespace SlotMac

variable {m : SlotMac} {x : Upper} {p : OutboxPhy}

/-- The beacon of a MAC with a network layer `hops` hops from the ground. -/
def beacon (m : SlotMac) (hops : Nat) : Packet :=
  .ofMessages [⟨some (.base (.ofSource m.config.id)), none⟩,
    ⟨some (.beacon ⟨m.position, !m.isOdd, HopCount.clamp hops, m.quality⟩), none⟩]

theorem shape_beacon (m : SlotMac) (hops : Nat) : (m.beacon hops).shape = [.base, .beacon] := rfl

/-- What a MAC sends in a slot that it is ready for, below the layers `x`. -/
inductive Sends (datarate : Nat) (m : SlotMac) (x : Upper) : List Transmission → Prop
  | beacon (hdue : m.isBeaconDue = true) :
      Sends datarate m x [⟨m.beacon x.net.hops, m.config.frequency⟩]
  | packet (hdue : m.isBeaconDue = false) {dest : Address} (hdest : dest ∈ m.schedule)
      {packet : Packet} (hpacket : (x.request (Word.clamp datarate) dest).1 = .ok packet)
      (hsize : 1 < packet.size) :
      Sends datarate m x [⟨(packet.sign m.config.id).announce.2, m.config.frequency⟩]
  | nothing (hdue : m.isBeaconDue = false) : Sends datarate m x []

theorem exists_turnSchedule (phy : Seat PhyLayer) (count : Nat) (m : SlotMac) (x : Upper) :
    ∃ next schedule,
      turnSchedule count ⟨m, x.around phy⟩ = (.ok next, ⟨{ m with schedule }, x.around phy⟩) ∧
      schedule.Perm m.schedule ∧ ∀ dest ∈ next, dest ∈ m.schedule := by
  induction count generalizing m with
  | zero => exact ⟨none, m.schedule, rfl, .refl _, nofun⟩
  | succ count ih =>
    rw [turnSchedule, Call.bind_apply, Call.own_apply]
    simp only
    cases hschedule : m.schedule with
    | nil => exact ⟨none, m.schedule, rfl, .of_eq hschedule, nofun⟩
    | cons dest rest =>
      have hturned : (rest ++ [dest]).Perm (dest :: rest) := List.perm_append_singleton dest rest
      simp only [Call.bind_apply, Call.change_apply, Call.outward_apply, Upper.hasMore_around]
      cases x.hasMore dest with
      | true =>
        refine ⟨some dest, rest ++ [dest], rfl, hturned, fun other hother => ?_⟩
        cases hother
        exact List.mem_cons_self
      | false =>
        obtain ⟨next, schedule, hrest, hperm, hnext⟩ := ih { m with schedule := rest ++ [dest] }
        exact ⟨next, schedule, hrest, hperm.trans hturned, fun other hother =>
          hturned.mem_iff.1 (hnext other hother)⟩

theorem sendBeacon_apply (m : SlotMac) (x : Upper) (p : OutboxPhy) :
    sendBeacon ⟨m, x.around (.idle (.outbox p))⟩ = (.ok (), ⟨{ m with isOdd := !m.isOdd },
      x.around (.idle (.outbox (p.transmit (m.beacon x.net.hops) m.config.frequency)))⟩) := by
  have hcontrol : ∀ h : BeaconHeader, control { m with isOdd := !m.isOdd } (.beacon h) =
      .ok (.ofMessages [⟨some (.base (.ofSource m.config.id)), none⟩, ⟨some (.beacon h), none⟩]) :=
    fun _ => rfl
  have hhops : (Call.attempt (Call.outward ArqAbove.hops) : Call (Inside SlotMac Station) _)
      ⟨m, x.around (.idle (.outbox p))⟩ =
        (.ok (.ok x.net.hops), ⟨m, x.around (.idle (.outbox p))⟩) := rfl
  have hnotices : m.notices ++ [] = m.notices := List.append_nil _
  simp only [sendBeacon, Call.bind_apply, hhops, Call.pure_apply, Call.change_apply, Call.own_apply,
    hcontrol, Call.ofLayer, passDown_apply]
  show (Except.ok (), (⟨{ m with isOdd := !m.isOdd, notices := m.notices ++ [] }, _⟩ :
    Inside SlotMac Station)) = _
  rw [hnotices]
  rfl

theorem serve_apply (dest : Address) (m : SlotMac) (x : Upper) (p : OutboxPhy) :
    serve dest ⟨m, x.around (.idle (.outbox p))⟩ =
      match x.request (Word.clamp p.config.datarate) dest with
      | (.error e, y) => (.error e, ⟨m, y.around (.idle (.outbox p))⟩)
      | (.ok packet, y) =>
        if packet.size ≤ 1 then (.ok (), ⟨m, y.around (.idle (.outbox p))⟩)
        else passDown (packet.sign m.config.id) m.config.frequency
          ⟨m, y.around (.idle (.outbox p))⟩ := by
  unfold serve
  rw [Call.bind_apply, Call.outward_apply, datarate_apply]
  simp only
  rw [Call.bind_apply, Call.outward_apply, Upper.request_around]
  rcases x.request (Word.clamp p.config.datarate) dest with ⟨e | packet, y⟩
  · rfl
  · simp only
    split
    · rfl
    · rw [Call.bind_apply, Call.own_apply]

/-- What becomes of the MAC, the layers above it and the PHY in a slot that they are ready for. -/
structure Uses (m : SlotMac) (x : Upper) (p : OutboxPhy) (after : SlotMac) (y : Upper)
    (q : OutboxPhy) : Prop where
  sends : ∃ sent, q.outbox = p.outbox ++ sent ∧ Sends p.config.datarate m x sent
  config : q.config = p.config
  links : after.links = m.links
  moves : Moves ⟨m, x⟩ ⟨after, y⟩
  knows : KnowsAlike ⟨m, x⟩ ⟨after, y⟩

theorem Uses.nothing (hdue : m.isBeaconDue = false) {after : SlotMac} {y : Upper}
    (hlinks : after.links = m.links) (hmoves : Moves ⟨m, x⟩ ⟨after, y⟩)
    (hknows : KnowsAlike ⟨m, x⟩ ⟨after, y⟩) : Uses m x p after y p :=
  ⟨⟨[], (List.append_nil _).symm, .nothing hdue⟩, rfl, hlinks, hmoves, hknows⟩

/-- A slot that the MAC is ready for is used. -/
theorem exists_useSlot (m : SlotMac) (x : Upper) (p : OutboxPhy) : ∃ result after y q,
    useSlot ⟨m, x.around (.idle (.outbox p))⟩ =
        (result, ⟨after, Upper.around (.idle (.outbox q)) y⟩) ∧ Uses m x p after y q := by
  unfold useSlot
  rw [Call.bind_apply, Call.own_apply]
  simp only
  split
  · next hdue =>
    refine ⟨_, _, _, _, sendBeacon_apply m x p,
      ⟨⟨_, rfl, .beacon hdue⟩, rfl, rfl, ?_, rfl, rfl, rfl, rfl, rfl⟩⟩
    exact .single (.settle rfl (.refl _) rfl)
  · next hdue =>
    rw [Bool.not_eq_true] at hdue
    obtain ⟨next, schedule, hturn, hperm, hnext⟩ :=
      exists_turnSchedule (.idle (.outbox p)) m.schedule.length m x
    have hturned : Moves ⟨m, x⟩ ⟨{ m with schedule }, x⟩ := .single (.settle rfl hperm rfl)
    simp only [nextDestination, Call.bind_apply, Call.own_apply, hturn]
    cases next with
    | none => exact ⟨_, _, x, p, rfl, .nothing hdue rfl hturned ⟨rfl, rfl, rfl, rfl, rfl⟩⟩
    | some dest =>
      simp only [serve_apply]
      have hrequest := hturned.tail (.request
        (Word.fits_iff.1 (Word.fits_clamp p.config.datarate)) dest)
      have hnet := x.net_request (Word.clamp p.config.datarate) dest
      have hknows : KnowsAlike ⟨m, x⟩
          ⟨{ m with schedule }, (x.request (Word.clamp p.config.datarate) dest).2⟩ :=
        ⟨rfl, rfl, rfl, congrArg RoutingNet.isGround hnet, congrArg RoutingNet.neighborHops hnet⟩
      rcases hanswer : x.request (Word.clamp p.config.datarate) dest with ⟨e | packet, y⟩
      · rw [hanswer] at hrequest hknows
        exact ⟨_, _, y, p, rfl, .nothing hdue rfl hrequest hknows⟩
      · rw [hanswer] at hrequest hknows
        simp only
        split
        · exact ⟨_, _, y, p, rfl, .nothing hdue rfl hrequest hknows⟩
        · next hsize =>
          have hpacket : (x.request (Word.clamp p.config.datarate) dest).1 = .ok packet := by
            rw [hanswer]
          refine ⟨_, _, y, _, passDown_apply _ y p _ _,
            ⟨⟨_, rfl, .packet hdue (hnext dest rfl) hpacket (Nat.lt_of_not_le hsize)⟩, rfl, rfl, ?_,
              hknows.trans ⟨rfl, rfl, rfl, rfl, rfl⟩⟩⟩
          exact hrequest.tail (.settle rfl (.refl _) rfl)

end SlotMac

/-! ## Stations -/

/-- What the MAC and the layers above it know of others once a call was made. -/
def StationCall.inform : StationCall → Inside SlotMac Upper → Inside SlotMac Upper
  | .update, s => Upper.pass s
  | .receive t, s => Upper.hear t.packet s
  | _, s => s

theorem StationCall.config_inform (call : StationCall) (s : Inside SlotMac Upper) :
    (call.inform s).layer.config = s.layer.config := by
  cases call with
  | update =>
    simp only [inform, Upper.pass, SlotMac.forgetSilent]
    split <;> rfl
  | receive t =>
    simp only [inform, Upper.hear]
    split <;> rfl
  | _ => rfl

namespace Station

/-- The MAC and the layers above it, of a station that is made of a valid configuration. -/
def start (config : StationConfig) : Inside SlotMac Upper :=
  ⟨⟨config.mac, 0, [.broadcast], [], [], .empty, .empty, .empty, default, default, false, []⟩,
    ⟨.empty config.isGround, .empty config.maxQueued, ⟨config.arq, 0, .empty⟩⟩⟩

/-- The station has come there from its start by moves. -/
def IsReached (config : StationConfig) (s : Station) : Prop :=
  ∃ (m : SlotMac) (x : Upper) (p : OutboxPhy), s = x.station m p ∧ p.config = config.phy ∧
    m.IsTracked ∧ Moves (start config) ⟨m, x⟩

variable {config : StationConfig} {s : Station} {m : SlotMac} {x : Upper} {p : OutboxPhy}

/-- What a call puts into the outbox, behind what is there. -/
def transmits (s : Station) (call : StationCall) : List Transmission :=
  (s.step call).drain.1.drop s.drain.1.length

theorem station_inj {y : Upper} {after : SlotMac} {q : OutboxPhy}
    (h : x.station m p = y.station after q) : m = after ∧ x = y ∧ p = q := by
  obtain ⟨net, rlc, arq⟩ := x
  obtain ⟨net', rlc', arq'⟩ := y
  simp only [Upper.station, Upper.around, Station.mk.injEq, Seat.idle.injEq, NetLayer.routing.injEq,
    RlcLayer.segmenting.injEq, ArqLayer.selective.injEq, MacLayer.slotted.injEq,
    PhyLayer.outbox.injEq] at h
  obtain ⟨rfl, rfl, rfl, rfl, rfl, -⟩ := h
  exact ⟨rfl, rfl, rfl⟩

theorem exists_update (hm : m.IsTracked) (x : Upper) (p : OutboxPhy) :
    ∃ ready before after y q, (x.station m p).step .update = Upper.station y after q ∧
      SlotMac.Readies m x ready before ∧ SlotMac.Uses ready before (p.tick 1) after y q := by
  obtain ⟨ready, before, hready, hreadies⟩ :=
    SlotMac.exists_getReady hm x (.idle (.outbox (p.tick 1)))
  obtain ⟨result, after, y, q, huse, huses⟩ := SlotMac.exists_useSlot ready before (p.tick 1)
  refine ⟨ready, before, after, y, q, ?_, hreadies, huses⟩
  rw [step, update_apply, SlotMac.update_eq, Call.bind_apply, hready]
  simp only [huse]
  rfl

/-- **One call.** Whatever a host asks of a station, it gets there by moves, only a slot or the host
changes its outbox, and only a slot or a packet changes what it knows of others. -/
theorem exists_moves (hm : m.IsTracked) (x : Upper) (p : OutboxPhy) (call : StationCall) :
    ∃ after y q, (x.station m p).step call = Upper.station y after q ∧ q.config = p.config ∧
      Moves ⟨m, x⟩ ⟨after, y⟩ ∧ KnowsAlike (call.inform ⟨m, x⟩) ⟨after, y⟩ ∧
      (call ≠ .update → call ≠ .drain → q.outbox = p.outbox) := by
  cases call with
  | send datagram dest priority =>
    rcases send_cases x m p datagram dest priority with ⟨bits, hsend⟩ | ⟨e, hsend⟩
    · refine ⟨_, _, p, congrArg Prod.snd hsend, rfl, .tail (.single (.enqueue datagram dest priority)) ?_,
        ?_, fun _ _ => rfl⟩
      · unfold SlotMac.notifyOutgoing
        simp only
        split
        · exact .settle rfl (.refl _) rfl
        · exact .settle rfl (.refl _) rfl
      · unfold SlotMac.notifyOutgoing
        simp only
        split <;> exact ⟨rfl, rfl, rfl, rfl, rfl⟩
    · exact ⟨m, x, p, congrArg Prod.snd hsend, rfl, .refl, .refl _, fun _ _ => rfl⟩
  | update =>
    obtain ⟨ready, before, after, y, q, hstep, hreadies, huses⟩ := exists_update hm x p
    exact ⟨after, y, q, hstep, huses.config, hreadies.moves.trans huses.moves,
      hreadies.knows.trans huses.knows, fun h => absurd rfl h⟩
  | receive t =>
    obtain ⟨result, after, y, hreceive, hmoves, hknows⟩ :=
      SlotMac.exists_receive m x .entered t.packet
    refine ⟨after, y, p, ?_, rfl, hmoves, hknows, fun _ _ => rfl⟩
    rw [step, receive_apply, hreceive]
    rfl
  | removeLink id =>
    rw [step, removeLink_apply, SlotMac.removeLink_apply]
    cases m.hasLink id with
    | true =>
      exact ⟨_, _, p, rfl, rfl, .single (.linkDown id), ⟨rfl, rfl, rfl, rfl, rfl⟩, fun _ _ => rfl⟩
    | false => exact ⟨m, x, p, rfl, rfl, .refl, .refl _, fun _ _ => rfl⟩
  | setPosition position quality =>
    exact ⟨m.setPosition position quality, x, p, rfl, rfl, .single (.settle rfl (.refl _) rfl),
      ⟨rfl, rfl, rfl, rfl, rfl⟩, fun _ _ => rfl⟩
  | tune frequency =>
    rw [step, tune_apply]
    cases htune : p.tune frequency with
    | error e => exact ⟨m, x, p, rfl, rfl, .refl, .refl _, fun _ _ => rfl⟩
    | ok q =>
      rw [OutboxPhy.tune] at htune
      split at htune <;> cases htune
      exact ⟨m, x, _, rfl, rfl, .refl, .refl _, fun _ _ => rfl⟩
  | drain => exact ⟨m, x, p.drain.2, rfl, rfl, .refl, .refl _, fun _ h => absurd rfl h⟩
  | collect =>
    exact ⟨m, { x with net := x.net.drain.2 }, p, rfl, rfl, .single (.net _),
      ⟨rfl, rfl, rfl, rfl, rfl⟩, fun _ _ => rfl⟩

theorem exists_tracked (hm : m.IsTracked) (x : Upper) (p : OutboxPhy) (call : StationCall) :
    ∃ after y q, (x.station m p).step call = Upper.station y after q ∧ after.IsTracked ∧
      q.config = p.config ∧ Moves ⟨m, x⟩ ⟨after, y⟩ ∧
      KnowsAlike (call.inform ⟨m, x⟩) ⟨after, y⟩ := by
  have hother : (⟨0⟩ : Address).isSymbolic = false := rfl
  obtain ⟨after, y, q, hstep, hconfig, hmoves, hknows, -⟩ := exists_moves hm x p call
  obtain ⟨y', after', q', hstep', htracked, -⟩ := exists_step (x := x) (p := p) hother hm call
  obtain ⟨rfl, rfl, rfl⟩ := station_inj (hstep.symm.trans hstep')
  exact ⟨after, y, q, hstep, htracked, hconfig, hmoves, hknows⟩

theorem transmits_eq_nil (hm : m.IsTracked) (x : Upper) (p : OutboxPhy) {call : StationCall}
    (hcall : call ≠ .update) : (x.station m p).transmits call = [] := by
  by_cases hdrain : call = .drain
  · subst hdrain
    exact List.drop_nil
  · obtain ⟨after, y, q, hstep, -, -, -, hout⟩ := exists_moves hm x p call
    rw [transmits, hstep]
    change q.outbox.drop p.outbox.length = []
    rw [hout hcall hdrain]
    exact List.drop_length

/-- A slot transmits what the MAC sends when it is ready. -/
theorem exists_transmits (hm : m.IsTracked) (x : Upper) (p : OutboxPhy) :
    ∃ ready before after y q, (x.station m p).step .update = Upper.station y after q ∧
      q.outbox = p.outbox ++ (x.station m p).transmits .update ∧
      SlotMac.Readies m x ready before ∧ SlotMac.Uses ready before (p.tick 1) after y q ∧
      SlotMac.Sends p.config.datarate ready before ((x.station m p).transmits .update) := by
  obtain ⟨ready, before, after, y, q, hstep, hreadies, huses⟩ := exists_update hm x p
  obtain ⟨sent, hout, hsends⟩ := huses.sends
  have htransmits : (x.station m p).transmits .update = sent := by
    rw [transmits, hstep]
    change q.outbox.drop p.outbox.length = sent
    rw [hout]
    exact List.drop_left
  rw [htransmits]
  exact ⟨ready, before, after, y, q, hstep, hout, hreadies, huses, hsends⟩

/-! ## Runs -/

theorem isReached_made (config : StationConfig) : (made config).IsReached config :=
  ⟨_, _, _, rfl, rfl, nofun, .refl⟩

theorem IsReached.step (h : s.IsReached config) (call : StationCall) :
    (s.step call).IsReached config := by
  obtain ⟨m, x, p, rfl, hconfig, hm, hmoves⟩ := h
  obtain ⟨after, y, q, hstep, htracked, hsame, hstepped, -⟩ := exists_tracked hm x p call
  exact ⟨after, y, q, hstep, hsame.trans hconfig, htracked, hmoves.trans hstepped⟩

theorem IsReached.run (h : s.IsReached config) (calls : List StationCall) :
    (s.run calls).IsReached config := by
  induction calls generalizing s with
  | nil => exact h
  | cons call rest ih => exact ih (h.step call)

/-- **Invariants.** What holds at the start and is kept by every move holds wherever a station comes. -/
theorem IsReached.invariant (h : s.IsReached config) {I : Inside SlotMac Upper → Prop}
    (hstart : I (start config)) (hmove : ∀ {s t}, Move s t → I s → I t) :
    ∃ m x p, s = Upper.station x m p ∧ p.config = config.phy ∧ m.IsTracked ∧ I ⟨m, x⟩ := by
  obtain ⟨m, x, p, rfl, hconfig, hm, hmoves⟩ := h
  exact ⟨m, x, p, rfl, hconfig, hm, hmoves.keep hmove hstart⟩

end Station

end DataLink
