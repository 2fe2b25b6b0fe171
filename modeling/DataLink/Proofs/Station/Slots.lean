import DataLink.Proofs.Call
import DataLink.Proofs.Station.Upper

/-!
# The link under the MAC

What the calls of the slotted MAC mean for the link to one peer. Setting links up, asking for them and
beacons leave the link as it is. In a slot one packet is sent at most: it is plain, or an answer of the
link (`Emits`). A received packet is taken in by the link if the MAC *admits* it, and a tear-down
leaves a fresh link.
-/

namespace DataLink

/-! ## The state of a call -/

namespace SlotMac

/-- The MAC of station `id` takes turns with the broadcast channel and one peer. -/
structure Serves (id peer : Address) (m : SlotMac) : Prop where
  id : m.config.id = id
  schedule : ∀ dest ∈ m.schedule, dest = .broadcast ∨ dest = peer

/-- The MAC hands the packet up. -/
def admits (m : SlotMac) (packet : Packet) : Bool :=
  packet.origin.isSet && packet.origin != m.config.id &&
    (packet.dest.isSymbolic || packet.dest == m.config.id)

theorem control_eq_ok {m : SlotMac} {header : Header} {packet : Packet}
    (h : m.control header = .ok packet) :
    packet = .ofMessages [⟨some (.base (.ofSource m.config.id)), none⟩, ⟨some header, none⟩] := by
  rw [control, mapError_eq_ok] at h
  obtain ⟨first, hfirst, h⟩ := bind_eq_ok.1 h
  obtain ⟨_, -, hfirst⟩ := bind_eq_ok.1 hfirst
  obtain ⟨_, -, h⟩ := bind_eq_ok.1 h
  cases hfirst
  cases h
  rfl

theorem isPlain_control {m : SlotMac} {header : Header} {packet : Packet}
    (h : m.control header = .ok packet) (hheader : ∀ u, header.unicast? = some u → u.useArq = false) :
    packet.IsPlain := by
  rw [control_eq_ok h]
  refine ⟨rfl, ?_⟩
  show ([Header.base (.ofSource m.config.id), header].filterMap Header.unicast?).find? _ = none
  rw [List.filterMap_cons_none rfl]
  cases hu : header.unicast? with
  | none => simp [hu]
  | some u => simp [hu, hheader u hu]

/-- What asks for a link or grants one is plain, and waits for the broadcast channel. -/
theorem linkControl_eq_ok {m : SlotMac} {frameType : FrameType} {dest : Address} {packet : Packet}
    (htype : frameType = .linkRequest ∨ frameType = .linkReply)
    (h : m.linkControl frameType dest = .ok packet) :
    packet.IsPlain ∧ SegmentingRlc.injectionKey packet = .broadcast := by
  obtain ⟨header, hheader, h⟩ := bind_eq_ok.1 h
  rw [mapError_eq_ok] at hheader
  have hnew : ∀ u, UnicastHeader.to? dest = .ok u → u.useArq = false := by
    intro u hu
    rw [UnicastHeader.to?] at hu
    split at hu <;> cases hu
    rfl
  rcases htype with rfl | rfl
  · obtain ⟨u, hu, hheader⟩ := bind_eq_ok.1 hheader
    cases hheader
    refine ⟨isPlain_control h fun v hv => ?_, by rw [control_eq_ok h]; rfl⟩
    cases hv
    exact hnew u hu
  · obtain ⟨u, hu, hheader⟩ := bind_eq_ok.1 hheader
    cases hheader
    refine ⟨isPlain_control h fun v hv => ?_, by rw [control_eq_ok h]; rfl⟩
    cases hv
    exact hnew u hu

end SlotMac

/-- The layers `x` lie around a call in the MAC of station `id`, and their link to `peer` is `l`. -/
structure Upper.Holds (window : Nat) (id peer : Address) (l : Link) (phy : Seat PhyLayer)
    (s : Inside SlotMac Station) (x : Upper) : Prop where
  around : s.around = x.around phy
  isReady : x.IsReady window
  link : x.arq.link peer = l
  serves : s.layer.Serves id peer

namespace SlotMac

variable {window : Nat} {id peer : Address} {l : Link} {phy : Seat PhyLayer}

/-- A call is in the MAC of station `id`, whose link to `peer` is `l`. -/
def Holds (window : Nat) (id peer : Address) (l : Link) (phy : Seat PhyLayer)
    (s : Inside SlotMac Station) : Prop :=
  ∃ x, Upper.Holds window id peer l phy s x

/-! ## Calls that leave the link as it is -/

theorem keeps_change {f : SlotMac → SlotMac}
    (hf : ∀ m : SlotMac, m.Serves id peer → (f m).Serves id peer) :
    (Call.change f).Preserves (Holds window id peer l phy) :=
  .change fun _ ⟨x, h⟩ => ⟨x, h.around, h.isReady, h.link, hf _ h.serves⟩

theorem keeps_outward {α : Type} {step : Call Station α}
    (h : ∀ x : Upper, x.IsReady window → ∃ result, ∃ after : Upper,
      step (x.around phy) = (result, after.around phy) ∧ after.IsReady window ∧
        after.arq.link peer = x.arq.link peer) :
    (Call.outward step : Call (Inside SlotMac Station) α).Preserves
      (Holds window id peer l phy) := by
  refine .outward fun s ⟨x, hs⟩ => ⟨?_, fun _ _ => trivial⟩
  obtain ⟨result, after, hstep, hafter, hlink⟩ := h x hs.isReady
  rw [hs.around, hstep]
  exact ⟨after, rfl, hafter, hlink.trans hs.link, hs.serves⟩

theorem keeps_inject {packet : Packet} (hp : packet.IsPlain)
    (hkey : SegmentingRlc.injectionKey packet = .broadcast) :
    (Call.outward (ArqAbove.inject packet) : Call (Inside SlotMac Station) Unit).Preserves
      (Holds window id peer l phy) :=
  keeps_outward fun x h => ⟨_, _, Upper.inject_apply phy x packet,
    ⟨h.window, h.protects, h.injects.inject hp hkey _⟩, rfl⟩

theorem keeps_askEach (dests : List Address) :
    (askEach dests : Call (Inside SlotMac Station) Unit).Preserves (Holds window id peer l phy) := by
  induction dests with
  | nil => exact .pure trivial
  | cons dest rest ih =>
    rw [askEach]
    refine .bind .look fun m _ => ?_
    refine .bind (.ofLayer fun packet hpacket => linkControl_eq_ok (Or.inl rfl) hpacket)
      fun packet hpacket => ?_
    refine .bind (keeps_inject hpacket.1 hpacket.2) fun _ _ => ?_
    exact .bind (keeps_change fun m hm => ⟨hm.id, hm.schedule⟩) fun _ _ => ih

theorem keeps_requestLinks :
    (requestLinks : Call (Inside SlotMac Station) Unit).Preserves (Holds window id peer l phy) := by
  refine .bind (keeps_change fun m hm => ⟨hm.id, hm.schedule⟩) fun _ _ => ?_
  refine .bind .look fun m _ => ?_
  exact .bind (keeps_change fun m hm => ⟨hm.id, hm.schedule⟩) fun _ _ => keeps_askEach _

theorem keeps_turnSchedule (count : Nat) :
    (turnSchedule count : Call (Inside SlotMac Station) (Option Address)).Keeps
      (Holds window id peer l phy) fun next => ∀ dest ∈ next, dest = .broadcast ∨ dest = peer := by
  induction count with
  | zero => exact .pure fun _ h => by cases h
  | succ count ih =>
    rw [turnSchedule]
    refine .bind (.own fun _ ⟨_, hs⟩ => hs.serves) fun m hm => ?_
    cases hschedule : m.schedule with
    | nil => exact .pure fun _ h => by cases h
    | cons dest rest =>
      have hdest : ∀ d ∈ rest ++ [dest], d = .broadcast ∨ d = peer := by
        intro d hd
        refine hm.schedule d ?_
        rw [hschedule, List.mem_cons]
        rcases List.mem_append.1 hd with hd | hd
        · exact Or.inr hd
        · exact Or.inl (List.mem_singleton.1 hd)
      refine .bind (keeps_change fun m hm => ⟨hm.id, hdest⟩) fun _ _ => ?_
      have hmore : (Call.outward (ArqAbove.hasMore dest) : Call (Inside SlotMac Station) Bool).Preserves
          (Holds window id peer l phy) := by
        refine keeps_outward fun x h => ?_
        obtain ⟨more, hmore⟩ := Upper.hasMore_apply phy x dest
        exact ⟨_, x, hmore, h, rfl⟩
      refine .bind hmore fun more _ => ?_
      refine .ite (.pure fun d hd => ?_) ih
      cases hd
      exact hdest dest (List.mem_append_right _ List.mem_cons_self)

theorem keeps_nextDestination :
    (nextDestination : Call (Inside SlotMac Station) (Option Address)).Keeps
      (Holds window id peer l phy) fun next => ∀ dest ∈ next, dest = .broadcast ∨ dest = peer :=
  .bind .look fun _ _ => keeps_turnSchedule _

/-- A link that is set up again is still the same link. -/
theorem keeps_establishLink :
    (establishLink peer : Call (Inside SlotMac Station) Unit).Preserves
      (Holds window id peer l phy) := by
  refine .bind (keeps_change fun m hm => ⟨hm.id, hm.schedule⟩) fun _ _ => ?_
  refine .bind .look fun m _ => ?_
  refine .ite (.pure trivial) ?_
  refine .bind (keeps_change fun m hm => ⟨hm.id, fun dest hdest => ?_⟩) fun _ _ => ?_
  · rcases List.mem_append.1 hdest with hdest | hdest
    · exact hm.schedule dest hdest
    · exact Or.inr (List.mem_singleton.1 hdest)
  · refine keeps_outward fun x h => ⟨_, _, Upper.linkUp_apply phy x peer,
      ⟨h.window, h.protects, h.injects⟩, ?_⟩
    exact SelectiveRepeat.link_setLink_self x.arq peer peer

theorem keeps_onLinkRequest :
    (onLinkRequest peer : Call (Inside SlotMac Station) Unit).Preserves
      (Holds window id peer l phy) := by
  refine .bind keeps_establishLink fun _ _ => ?_
  refine .bind .look fun m _ => ?_
  refine .bind (.ofLayer fun packet hpacket => linkControl_eq_ok (Or.inr rfl) hpacket)
    fun packet hpacket => ?_
  exact keeps_inject hpacket.1 hpacket.2

theorem keeps_onBeacon (origin : Address) (beacon : BeaconHeader) :
    (onBeacon origin beacon : Call (Inside SlotMac Station) Unit).Preserves
      (Holds window id peer l phy) := by
  refine .bind (keeps_change fun m hm => ⟨hm.id, hm.schedule⟩) fun _ _ => ?_
  have hreport : (Call.outward (ArqAbove.report origin beacon.hops.val) :
      Call (Inside SlotMac Station) Unit).Preserves (Holds window id peer l phy) :=
    keeps_outward fun x h => ⟨_, _, Upper.report_apply phy x origin beacon.hops.val,
      ⟨h.window, h.protects, h.injects⟩, rfl⟩
  refine .bind (.attempt hreport) fun result _ => ?_
  split
  · exact .pure trivial
  · exact .pure trivial
  · exact .fail _

/-! ## One slot -/

/-- What station `id` may send in a slot, and the link to its peer afterwards. -/
inductive Emits (window : Nat) (id : Address) (l : Link) : List Transmission → Link → Prop
  | nothing : Emits window id l [] l
  | plain {t : Transmission} (horigin : t.packet.origin = id) (hnone : t.packet.arqHeader? = none) :
      Emits window id l [t] l
  | answer {t : Transmission} {out : Packet} {m : Link} (hanswers : l.Answers window out m)
      (hsize : 1 < out.size) (hpacket : t.packet.copy = (out.sign id).copy) :
      Emits window id l [t] m

/-- What station `id` has sent, in a slot that began with the link `l` to its peer. -/
def Sent (window : Nat) (id peer : Address) (l : Link) (s : Inside SlotMac Station) : Prop :=
  ∃ (x : Upper) (p : OutboxPhy), s.around = x.around (.idle (.outbox p)) ∧ x.IsReady window ∧
    s.layer.Serves id peer ∧ Emits window id l p.outbox (x.arq.link peer)

variable {p : OutboxPhy} {s : Inside SlotMac Station}

theorem Holds.sent (h : Holds window id peer l (.idle (.outbox p)) s) (hp : p.outbox = []) :
    Sent window id peer l s := by
  obtain ⟨x, haround, hready, hlink, hserves⟩ := h
  refine ⟨x, p, haround, hready, hserves, ?_⟩
  rw [hp, hlink]
  exact .nothing

theorem passDown_apply (m : SlotMac) (x : Upper) (p : OutboxPhy) (packet : Packet)
    (frequency : Nat) : passDown packet frequency ⟨m, x.around (.idle (.outbox p))⟩ =
      (.ok (), ⟨{ m with notices := m.notices ++ packet.announce.1 },
        x.around (.idle (.outbox (p.transmit packet.announce.2 frequency)))⟩) := rfl

theorem datarate_apply (x : Upper) (p : OutboxPhy) :
    PhyBelow.datarate (x.around (.idle (.outbox p))) =
      (.ok p.config.datarate, x.around (.idle (.outbox p))) := rfl

theorem Holds.passDown (h : Holds window id peer l (.idle (.outbox p)) s) (hp : p.outbox = [])
    {packet : Packet} (horigin : packet.origin = id) (hnone : packet.arqHeader? = none)
    (frequency : Nat) : Sent window id peer l (SlotMac.passDown packet frequency s).2 := by
  obtain ⟨m, around⟩ := s
  obtain ⟨x, haround, hready, hlink, hserves⟩ := h
  change around = _ at haround
  rw [haround, passDown_apply]
  refine ⟨x, _, rfl, hready, ⟨hserves.id, hserves.schedule⟩, ?_⟩
  rw [OutboxPhy.transmit, hp, hlink]
  exact .plain horigin hnone

/-- As long as the link is only kept, nothing was sent yet. -/
theorem Holds.followed {α β : Type} {Q : α → Prop} {step : Call (Inside SlotMac Station) α}
    {next : α → Call (Inside SlotMac Station) β} (h : Holds window id peer l (.idle (.outbox p)) s)
    (hp : p.outbox = []) (hstep : step.Keeps (Holds window id peer l (.idle (.outbox p))) Q)
    (hnext : ∀ a t, Q a → Holds window id peer l (.idle (.outbox p)) t →
      Sent window id peer l (next a t).2) : Sent window id peer l ((step >>= next) s).2 :=
  hstep.followed (C := fun _ t => Sent window id peer l t) h (fun _ _ ht => ht.sent hp) hnext

theorem Holds.sendBeacon (h : Holds window id peer l (.idle (.outbox p)) s) (hp : p.outbox = []) :
    Sent window id peer l (SlotMac.sendBeacon s).2 := by
  have hhops : (Call.outward ArqAbove.hops : Call (Inside SlotMac Station) Nat).Preserves
      (Holds window id peer l (.idle (.outbox p))) :=
    keeps_outward fun x hx => ⟨_, x, Upper.hops_apply _ x, hx, rfl⟩
  have hrest : ∀ (hops : HopCount) t, Holds window id peer l (.idle (.outbox p)) t →
      Sent window id peer l ((do
        Call.change fun m => { m with isOdd := !m.isOdd }
        let m ← Call.own
        let packet ← Call.ofLayer (m.control (.beacon ⟨m.position, m.isOdd, hops, m.quality⟩))
        SlotMac.passDown packet m.config.frequency : Call (Inside SlotMac Station) Unit) t).2 := by
    intro hops t ht
    refine ht.followed hp (keeps_change fun m hm => ⟨hm.id, hm.schedule⟩) fun _ t _ ht => ?_
    refine ht.followed hp (.own (Q := fun m => m.config.id = id) fun _ ⟨_, hs⟩ => hs.serves.id)
      fun m t hm ht => ?_
    refine ht.followed hp (.ofLayer fun packet hpacket => hpacket) fun packet t hpacket ht => ?_
    have hplain := isPlain_control hpacket fun u hu => by cases hu
    refine ht.passDown hp ?_ ?_ _
    · rw [control_eq_ok hpacket, ← hm]
      rfl
    · rw [Packet.arqHeader?, hplain.unmarked]
      exact ite_self none
  refine h.followed hp (.attempt hhops) fun result t _ ht => ?_
  split
  · exact ht.followed hp (.pure (Q := fun _ => True) trivial) fun hops t _ ht => hrest hops t ht
  · exact ht.followed hp (.pure (Q := fun _ => True) trivial) fun hops t _ ht => hrest hops t ht
  · exact ht.followed hp (.fail (Q := fun _ => True) _) fun hops t _ ht => hrest hops t ht

/-- Serving a destination sends a plain packet, or an answer of the link. -/
theorem Holds.serve (h : Holds window id peer l (.idle (.outbox p)) s) (hp : p.outbox = [])
    (hpeer : peer.isSymbolic = false) (hheld : l.HoldsFrames) {dest : Address}
    (hdest : dest = .broadcast ∨ dest = peer) :
    Sent window id peer l (SlotMac.serve dest s).2 := by
  refine h.followed hp (keeps_outward fun x hx => ⟨_, x, datarate_apply x p, hx, rfl⟩)
    fun bits t _ ht => ?_
  obtain ⟨m, around⟩ := t
  obtain ⟨x, haround, hready, hlink, hserves⟩ := ht
  change around = _ at haround
  subst haround
  rw [Call.bind_apply, Call.outward_apply]
  rcases hdest with rfl | rfl
  · obtain ⟨result, rlc, hrequest, hready', hresult⟩ := hready.request_broadcast _ (Word.clamp bits)
    rw [hrequest]
    have hholds : Holds window id peer l (.idle (.outbox p)) ⟨m, Upper.around _ { x with rlc }⟩ :=
      ⟨_, rfl, hready', hlink, hserves⟩
    cases result with
    | error e => exact hholds.sent hp
    | ok packet =>
      simp only
      split
      · exact hholds.sent hp
      · next hsize =>
        rcases hresult packet rfl with rfl | hplain
        · exact absurd (Nat.zero_le 1) hsize
        · obtain ⟨horigin, hnone⟩ := hplain.sign m.config.id
          rw [Call.bind_apply, Call.own_apply]
          exact hholds.passDown hp (horigin.trans hserves.id) hnone _
  · obtain ⟨result, after, hrequest, hready', hcases⟩ :=
      hready.request_station _ hpeer (Word.clamp bits)
    rw [hrequest]
    rcases hcases with ⟨e, rfl, hsame⟩ | ⟨out, rfl, hanswers⟩
    · exact Holds.sent ⟨after, rfl, hready', hsame.trans hlink, hserves⟩ hp
    · rw [hlink] at hanswers
      simp only
      split
      · next hsize =>
        exact Holds.sent ⟨after, rfl, hready', hanswers.eq_of_size_le hheld hsize, hserves⟩ hp
      · next hsize =>
        rw [Call.bind_apply, Call.own_apply]
        simp only
        rw [passDown_apply]
        refine ⟨after, _, rfl, hready', ⟨hserves.id, hserves.schedule⟩, ?_⟩
        rw [OutboxPhy.transmit, hp]
        refine .answer hanswers (Nat.lt_of_not_le hsize) ?_
        rw [← hserves.id]
        rfl

theorem Holds.update (h : Holds window id peer l (.idle (.outbox p)) s) (hp : p.outbox = [])
    (hpeer : peer.isSymbolic = false) (hheld : l.HoldsFrames) :
    Sent window id peer l (SlotMac.update s).2 := by
  have htick : (Call.outward (ArqAbove.tick 1) : Call (Inside SlotMac Station) Unit).Preserves
      (Holds window id peer l (.idle (.outbox p))) :=
    keeps_outward fun x hx => ⟨_, _, Upper.tick_apply _ x 1,
      ⟨hx.window, hx.protects, hx.injects⟩, rfl⟩
  have hforget : ∀ m : SlotMac, m.Serves id peer → m.forgetSilent.Serves id peer := by
    intro m hm
    simp only [forgetSilent]
    split
    · exact ⟨hm.id, hm.schedule⟩
    · exact hm
  refine h.followed hp (keeps_change fun m hm => ⟨hm.id, hm.schedule⟩) fun _ t _ ht => ?_
  refine ht.followed hp htick fun _ t _ ht => ?_
  refine ht.followed hp (keeps_change hforget) fun _ t _ ht => ?_
  refine ht.followed hp keeps_requestLinks fun _ t _ ht => ?_
  refine ht.followed hp .look fun m t _ ht => ?_
  split
  · exact ht.sendBeacon hp
  · refine ht.followed hp keeps_nextDestination fun next t hnext ht => ?_
    cases next with
    | none => exact ht.sent hp
    | some dest => exact ht.serve hp hpeer hheld (hnext dest rfl)

/-! ## Receiving -/

/-- What becomes of the link `l` when a packet from the peer is received: nothing, or the packet is
admitted and the link takes it in. -/
inductive Takes (window : Nat) (l : Link) (isAdmitted : Bool) (packet : Packet)
    (result : Except Fault Unit) : Link → Prop
  | nothing (h : result = .ok () → isAdmitted = true → packet.arqHeader? = none) :
      Takes window l isAdmitted packet result l
  | takeIn {header : UnicastHeader} (hadmitted : isAdmitted = true)
      (hheader : packet.arqHeader? = some header)
      (hok : (∀ p ∈ (l.takeIn header packet window).1, p.IsSound) → result = .ok ()) :
      Takes window l isAdmitted packet result (l.takeIn header packet window).2

/-- The call ends as one that was to receive a packet, if it starts with the link `l`. -/
def Receives (window : Nat) (id peer : Address) (l : Link) (phy : Seat PhyLayer)
    (isAdmitted : Bool) (packet : Packet) (step : Call (Inside SlotMac Station) Unit) : Prop :=
  ∀ s, Holds window id peer l phy s → ∃ m, Takes window l isAdmitted packet (step s).1 m ∧
    Holds window id peer m phy (step s).2

variable {packet : Packet} {isAdmitted : Bool}

/-- As long as the link is only kept, nothing was taken in yet. -/
theorem Receives.after {α : Type} {Q : α → Prop} {step : Call (Inside SlotMac Station) α}
    {next : Call (Inside SlotMac Station) Unit} (hstep : step.Keeps (Holds window id peer l phy) Q)
    (hnext : Receives window id peer l phy isAdmitted packet next) :
    Receives window id peer l phy isAdmitted packet (step >>= fun _ => next) :=
  fun _ hs => hstep.followed (C := fun result t => ∃ m, Takes window l isAdmitted packet result m ∧
      Holds window id peer m phy t) hs
    (fun _ _ ht => ⟨l, .nothing (fun hr => by cases hr), ht⟩) fun _ t _ ht => hnext t ht

theorem Receives.ite {c : Prop} [Decidable c] {step other : Call (Inside SlotMac Station) Unit}
    (h : Receives window id peer l phy isAdmitted packet step)
    (hother : Receives window id peer l phy isAdmitted packet other) :
    Receives window id peer l phy isAdmitted packet (if c then step else other) := by
  split
  · exact h
  · exact hother

theorem receives_up (horigin : packet.origin = peer) (hadmitted : isAdmitted = true) :
    Receives window id peer l phy isAdmitted packet (Call.outward (ArqAbove.receive packet)) := by
  rintro ⟨m, around⟩ ⟨x, haround, hready, hlink, hserves⟩
  change around = _ at haround
  rw [haround, Call.outward_apply]
  cases hheader : packet.arqHeader? with
  | none =>
    obtain ⟨result, after, hreceive, hready', harq⟩ := hready.receive_of_none phy hheader
    rw [hreceive]
    exact ⟨l, .nothing fun _ _ => hheader, after, rfl, hready', by rw [harq, hlink], hserves⟩
  | some header =>
    obtain ⟨result, after, hreceive, hready', hlink', hok⟩ :=
      hready.receive_of_some phy hheader horigin
    rw [hreceive]
    rw [hlink] at hlink' hok
    exact ⟨_, .takeIn hadmitted hheader hok, after, rfl, hready', hlink', hserves⟩

theorem admits_eq (m : SlotMac) (packet : Packet) : m.admits packet =
    (!(!packet.origin.isSet || packet.origin == m.config.id) &&
      (packet.dest.isSymbolic || packet.dest == m.config.id)) := by
  rw [admits, Bool.not_or, Bool.not_not]
  rfl

/-- A received packet may set up the link and tell about beacons; only then is it handed up. -/
theorem Holds.receive (h : Holds window id peer l phy s) (horigin : packet.origin = peer) :
    ∃ m, Takes window l (s.layer.admits packet) packet (SlotMac.receive packet s).1 m ∧
      Holds window id peer m phy (SlotMac.receive packet s).2 := by
  have hid : s.layer.config.id = id := by
    obtain ⟨x, hx⟩ := h
    exact hx.serves.id
  subst hid horigin
  rw [admits_eq]
  unfold SlotMac.receive
  rw [Call.bind_apply, Call.own_apply]
  simp only
  generalize s.layer.config.id = id at h ⊢
  split
  · next hdropped =>
    rw [hdropped]
    exact ⟨l, .nothing (fun _ hadmitted => by cases hadmitted), h⟩
  · next hheard =>
    rw [Bool.not_eq_true] at hheard
    rw [hheard, Bool.not_false, Bool.true_and]
    -- Each step is done or left out, and then the next one comes.
    have hup : Receives window id packet.origin l phy (packet.dest.isSymbolic || packet.dest == id)
        packet (if packet.dest.isSymbolic || packet.dest == id then
          Call.outward (ArqAbove.receive packet) else pure ()) := by
      split
      · next hdest => exact receives_up rfl hdest
      · next hdest =>
        exact fun t ht => ⟨l, .nothing fun _ hadmitted => absurd hadmitted hdest, ht⟩
    have hreply := Receives.ite (c := (summarize id packet).isReply = true)
      (hup.after keeps_establishLink) hup
    have hrequest := Receives.ite (c := (summarize id packet).isRequest = true)
      (hreply.after keeps_onLinkRequest) hreply
    have hseen : (Call.change fun m : SlotMac => { m with
        neighbors := (m.neighbors.markSeen packet.origin m.slot).1 } :
        Call (Inside SlotMac Station) Unit).Preserves (Holds window id packet.origin l phy) :=
      keeps_change fun m hm => ⟨hm.id, hm.schedule⟩
    refine Receives.after hseen ?_ s h
    cases (summarize id packet).beacon with
    | none => exact hrequest
    | some beacon => exact hrequest.after (keeps_onBeacon _ _)

/-! ## Tearing down -/

/-- A tear-down of the link to the peer leaves a fresh one, if it succeeds. -/
theorem Holds.removeLink (h : Holds window id peer l phy s) (other : Address) :
    Holds window id peer
      (if (SlotMac.removeLink other s).1.isOk ∧ other = peer then .fresh else l) phy
      (SlotMac.removeLink other s).2 := by
  obtain ⟨m, around⟩ := s
  obtain ⟨x, haround, hready, hlink, hserves⟩ := h
  change around = _ at haround
  subst haround
  unfold SlotMac.removeLink
  rw [Call.bind_apply, Call.own_apply]
  simp only
  split
  · rw [Call.bind_apply, Call.change_apply]
    simp only [Call.outward_apply, Upper.linkDown_apply]
    have hschedule : ∀ d ∈ m.schedule.filter fun dest => dest ≠ other, d = .broadcast ∨ d = peer :=
      fun d hd => hserves.schedule d (List.mem_filter.1 hd).1
    cases hdown : x.arq.linkDown other with
    | error e => exact ⟨x, rfl, hready, hlink, hserves.id, hschedule⟩
    | ok arq =>
      obtain ⟨_, -, hdown⟩ := bind_eq_ok.1 hdown
      cases hdown
      refine ⟨_, rfl, ⟨hready.window, hready.protects, hready.injects⟩, ?_, hserves.id, hschedule⟩
      show ((x.arq.links.erase other).get? peer).getD .fresh = _
      rw [Table.get?_erase]
      by_cases hother : other = peer
      · rw [if_pos hother, if_pos ⟨rfl, hother⟩]
        rfl
      · rw [if_neg hother, if_neg fun h => hother h.2]
        exact hlink
  · exact ⟨x, rfl, hready, hlink, hserves⟩

end SlotMac

end DataLink
