import DataLink.Proofs.Arq.Answer
import DataLink.Proofs.Tower
import DataLink.Station.Config

/-!
# Above the MAC of a station

While a call is in the MAC of a station, the layers above it sit in their seats and all bindings lead
where they should. `Upper` is these layers, and `Upper.around` the station that the MAC finds around
itself then. What the MAC asks of it is answered by the ARQ alone, or by the ARQ and the RLC:
`request_station` and `request_broadcast` say how packets are built, `receive_apply` how they are
taken in.

Control packets wait in the RLC as *plain* packets, which no ARQ has written into. They all go out on
the broadcast channel, so what is built for the peer is an answer of the link to it.
-/

namespace DataLink

/-! ## Plain packets -/

/-- The packet has a base header in front, and no ARQ has written into it. -/
structure Packet.IsPlain (p : Packet) : Prop where
  lead : p.shape.head? = some .base
  unmarked : p.unicastHeaders.find? UnicastHeader.useArq = none

theorem Packet.IsPlain.sign {p : Packet} (h : p.IsPlain) (source : Address) :
    (p.sign source).origin = source ∧ (p.sign source).arqHeader? = none := by
  have horigin := origin_sign h.lead source
  refine ⟨horigin, ?_⟩
  rw [arqHeader?, unicastHeaders_sign, h.unmarked]
  exact ite_self none

namespace SegmentingRlc

/-- Control packets are plain, and wait for the broadcast channel. -/
def InjectsPlain (r : SegmentingRlc) : Prop :=
  ∀ dest waiting, r.injected.get? dest = some waiting →
    dest = .broadcast ∧ ∀ e ∈ waiting.items, e.2.IsPlain

variable {r : SegmentingRlc}

theorem InjectsPlain.injectedFor (h : r.InjectsPlain) :
    ∀ e ∈ (r.injectedFor .broadcast).items, e.2.IsPlain := by
  intro e he
  rw [SegmentingRlc.injectedFor] at he
  cases hget : r.injected.get? .broadcast with
  | none =>
    rw [hget] at he
    cases he
  | some waiting =>
    rw [hget] at he
    exact (h _ _ hget).2 e he

theorem InjectsPlain.injectedFor_eq_nil (h : r.InjectsPlain) {dest : Address}
    (hdest : dest.isSymbolic = false) : (r.injectedFor dest).items = [] := by
  rw [SegmentingRlc.injectedFor]
  cases hget : r.injected.get? dest with
  | none => rfl
  | some waiting =>
    rw [(h _ _ hget).1] at hdest
    cases hdest

theorem InjectsPlain.inject (h : r.InjectsPlain) {packet : Packet} (hp : packet.IsPlain)
    (hkey : injectionKey packet = .broadcast) (priority : Nat) :
    (r.inject packet priority).InjectsPlain := by
  intro dest waiting hget
  rw [SegmentingRlc.inject, hkey] at hget
  simp only [Table.get?_insert] at hget
  split at hget
  · next hdest =>
    cases hget
    refine ⟨hdest.symm, ?_⟩
    intro e he
    rcases List.mem_cons.1 ((PriorityQueue.place_perm priority packet _).mem_iff.1 he) with rfl | he
    · exact hp
    · exact h.injectedFor e he
  · exact h dest waiting hget

/-- The RLC without the control packet that goes next on the broadcast channel. -/
def popped (r : SegmentingRlc) : SegmentingRlc :=
  { r with injected := r.injected.set .broadcast (r.injectedFor .broadcast).popFront.nonempty? }

theorem InjectsPlain.popped (h : r.InjectsPlain) : r.popped.InjectsPlain := by
  intro dest waiting hget
  rw [SegmentingRlc.popped, Table.get?_set] at hget
  split at hget
  · next hdest =>
    rw [PriorityQueue.nonempty?] at hget
    split at hget
    · cases hget
    · cases hget
      exact ⟨hdest.symm, fun e he => h.injectedFor e (List.mem_of_mem_tail he)⟩
  · exact h dest waiting hget

/-- What is taken out to go on the broadcast channel is plain. -/
theorem InjectsPlain.popInjected (h : r.InjectsPlain) {bits : Nat} {packet : Packet}
    {after : SegmentingRlc} (hpop : r.popInjected bits .broadcast = .ok (some (packet, after))) :
    packet.IsPlain ∧ after = r.popped := by
  obtain ⟨hfront, -, rfl⟩ := popInjected_eq_some hpop
  obtain ⟨e, he, rfl⟩ := Option.map_eq_some_iff.1 hfront
  exact ⟨h.injectedFor e (List.mem_of_mem_head? he), rfl⟩

theorem isPlain_packed (pieces : List (Fragment × Segment)) :
    (packed .broadcast pieces).IsPlain := by
  have hcarrier : ∀ fragment, (carrier .broadcast fragment).unicast? = none := fun _ => rfl
  refine ⟨?_, ?_⟩
  · rw [Packet.shape, headers_packed]
    rfl
  · have hnil : (packed .broadcast pieces).unicastHeaders = [] := by
      rw [Packet.unicastHeaders, headers_packed]
      simp [Header.unicast?, hcarrier, -Header.unicast?]
    rw [hnil]
    rfl

/-- What goes out on the broadcast channel is plain, or there is nothing in it. -/
theorem requestBurst_broadcast {ε : Type} (h : r.InjectsPlain) (bits frame : Nat) (around : ε) :
    ∃ result after, after.InjectsPlain ∧
      requestBurst bits .broadcast frame ⟨r, around⟩ = (result, ⟨after, around⟩) ∧
      ∀ packet, result = .ok packet → packet = .empty ∨ packet.IsPlain := by
  have hfill := fill_eq (Or.inl rfl) r bits
  rw [requestBurst_eq]
  split
  · exact ⟨_, r, h, rfl, fun packet hp => by cases hp; exact Or.inl rfl⟩
  · cases hcontrol : r.controlFor bits .broadcast frame with
    | error e => exact ⟨_, r, h, rfl, fun _ hp => by cases hp⟩
    | ok control =>
      cases control with
      | none =>
        rw [hfill]
        refine ⟨_, r.setQueue .broadcast _, h, rfl, ?_⟩
        intro packet hp
        cases hp
        exact Or.inr (isPlain_packed _)
      | some served =>
        obtain ⟨packet, after⟩ := served
        obtain ⟨hplain, rfl⟩ := h.popInjected (controlFor_eq_some_iff.1 hcontrol).2
        refine ⟨_, _, h.popped, rfl, ?_⟩
        intro p hp
        cases hp
        exact Or.inr hplain

end SegmentingRlc

/-! ## The layers above the MAC -/

/-- The layers above the MAC of a station. -/
structure Upper where
  net : RoutingNet
  rlc : SegmentingRlc
  arq : SelectiveRepeat

namespace Upper

/-- The station that a call in the MAC finds around itself. -/
def around (phy : Seat PhyLayer) (x : Upper) : Station :=
  ⟨.idle (.routing x.net), .idle (.segmenting x.rlc), .idle (.selective x.arq), .entered, phy,
    Joint.all, []⟩

/-- The station that a call in the ARQ finds around itself when the MAC made it. -/
def below (phy : Seat PhyLayer) (x : Upper) : Station := { x.around phy with arq := .entered }

/-- Frames for stations are protected, and control packets are plain. -/
structure IsReady (window : Nat) (x : Upper) : Prop where
  window : x.arq.config.windowSize = window
  protects : x.arq.config.protectUnicast = true
  injects : x.rlc.InjectsPlain

variable {x : Upper} {window : Nat} {peer : Address} (phy : Seat PhyLayer)

theorem inject_apply (x : Upper) (packet : Packet) : ArqAbove.inject packet (x.around phy) =
    (.ok (), around phy { x with rlc := x.rlc.inject packet Priority.linkManagement }) := rfl

theorem linkUp_apply (x : Upper) (id : Address) : ArqAbove.linkUp id (x.around phy) =
    (.ok (), around phy { x with arq := x.arq.linkUp id }) := rfl

theorem tick_apply (x : Upper) (slots : Nat) : ArqAbove.tick slots (x.around phy) =
    (.ok (), around phy { x with arq := x.arq.tick slots }) := rfl

theorem hops_apply (x : Upper) : ArqAbove.hops (x.around phy) = (.ok x.net.hops, x.around phy) :=
  rfl

theorem report_apply (x : Upper) (id : Address) (hops : Nat) :
    ArqAbove.report id hops (x.around phy) =
      (.ok (), around phy { x with net := x.net.report id hops }) := rfl

theorem linkDown_apply (x : Upper) (id : Address) : ArqAbove.linkDown id (x.around phy) =
    match x.arq.linkDown id with
    | .ok arq => (.ok (), around phy { x with arq })
    | .error e => (.error (.layer e), x.around phy) := by
  have hcall : ArqAbove.linkDown id (x.around phy) =
      match (do
        let after ← Call.ofLayer (x.arq.linkDown id)
        Call.change fun _ => ArqLayer.selective after : Call (Inside ArqLayer Station) Unit)
        ⟨.selective x.arq, x.below phy⟩ with
      | (r, after) => (r, { after.around with arq := after.around.arq.leave after.layer }) := rfl
  rw [hcall]
  cases x.arq.linkDown id <;> rfl

theorem hasMore_apply (x : Upper) (dest : Address) :
    ∃ more, ArqAbove.hasMore dest (x.around phy) = (.ok more, x.around phy) := by
  have hcall : ArqAbove.hasMore dest (x.around phy) =
      match SelectiveRepeat.hasMore dest ⟨x.arq, x.below phy⟩ with
      | (r, after) => (r, { after.around with
        arq := after.around.arq.leave (.selective after.layer) }) := rfl
  have harq : ∃ more, SelectiveRepeat.hasMore dest ⟨x.arq, x.below phy⟩ =
      (.ok more, ⟨x.arq, x.below phy⟩) := by
    simp only [SelectiveRepeat.hasMore, Call.bind_apply, Call.own_apply]
    cases x.arq.links.get? dest with
    | none => exact ⟨x.rlc.hasMore dest, rfl⟩
    | some l =>
      simp only
      split
      · exact ⟨true, rfl⟩
      · exact ⟨x.rlc.hasMore dest, rfl⟩
  obtain ⟨more, harq⟩ := harq
  rw [hcall, harq]
  exact ⟨more, rfl⟩

/-! ## Building packets -/

theorem request_apply (x : Upper) (bits : Nat) (dest : Address) :
    ArqAbove.request bits dest (x.around phy) =
      match SelectiveRepeat.requestBurst bits dest 0 ⟨x.arq, x.below phy⟩ with
      | (r, after) => (r, { after.around with
        arq := after.around.arq.leave (.selective after.layer) }) := rfl

theorem requestRlc_apply (x : Upper) (bits : Nat) (dest : Address) (frame : Nat) :
    RlcAbove.requestBurst bits dest frame (x.below phy) =
      match SegmentingRlc.requestBurst bits dest frame
        ⟨x.rlc, { x.below phy with rlc := .entered }⟩ with
      | (r, after) => (r, { after.around with
        rlc := after.around.rlc.leave (.segmenting after.layer) }) := rfl

theorem IsReady.request_broadcast (h : x.IsReady window) (bits : Nat) :
    ∃ result rlc, ArqAbove.request bits .broadcast (x.around phy) =
        (result, around phy { x with rlc }) ∧
      IsReady window { x with rlc } ∧
      ∀ packet, result = .ok packet → packet = .empty ∨ packet.IsPlain := by
  have hp : (⟨x.arq, x.below phy⟩ : Inside SelectiveRepeat Station).layer.isProtected .broadcast =
      false := Bool.and_false _
  obtain ⟨result, rlc, hrlc, hcall, hresult⟩ := SegmentingRlc.requestBurst_broadcast h.injects bits 0
    { x.below phy with rlc := .entered }
  refine ⟨result, rlc, ?_, ⟨h.window, h.protects, hrlc⟩, hresult⟩
  rw [request_apply, SelectiveRepeat.requestBurst_unprotected hp, requestRlc_apply, hcall]
  rfl

/-- A packet for the peer is an answer of the link to it. -/
theorem IsReady.request_station (h : x.IsReady window) (hpeer : peer.isSymbolic = false)
    (bits : Nat) : ∃ result, ∃ after : Upper, ArqAbove.request bits peer (x.around phy) =
        (result, after.around phy) ∧ after.IsReady window ∧
      ((∃ e, result = .error e ∧ after.arq.link peer = x.arq.link peer) ∨
        ∃ out, result = .ok out ∧
          (x.arq.link peer).Answers window out (after.arq.link peer)) := by
  have hp : (⟨x.arq, x.below phy⟩ : Inside SelectiveRepeat Station).layer.isProtected peer = true := by
    show (x.arq.config.protectUnicast && !peer.isSymbolic) = true
    rw [h.protects, hpeer]
    rfl
  obtain ⟨packet, queues, hbuilt, hcall⟩ := SegmentingRlc.requestBurst_built
    (s := ⟨x.rlc, { x.below phy with rlc := .entered }⟩) hpeer
    (h.injects.injectedFor_eq_nil hpeer) bits 0
  have hrlc : RlcAbove.requestBurst bits peer 0 (x.below phy) =
      (.ok packet, below phy { x with rlc := { x.rlc with queues } }) := by
    rw [requestRlc_apply, hcall]
    rfl
  obtain ⟨haround, hcases⟩ := SelectiveRepeat.requestBurst_cases hp bits 0 fun p hp => by
    rw [show (⟨x.arq, x.below phy⟩ : Inside SelectiveRepeat Station).around = x.below phy from rfl,
      hrlc] at hp
    cases hp
    exact hbuilt
  rw [request_apply]
  generalize SelectiveRepeat.requestBurst bits peer 0 ⟨x.arq, x.below phy⟩ = answer at haround hcases ⊢
  obtain ⟨result, arq, around⟩ := answer
  have hupper : ∃ rlc, around = below phy { x with rlc } ∧ rlc.InjectsPlain := by
    rcases haround with haround | haround
    · exact ⟨x.rlc, haround, h.injects⟩
    · exact ⟨{ x.rlc with queues }, haround.trans (by rw [hrlc]), h.injects⟩
  obtain ⟨rlc, rfl, hinjects⟩ := hupper
  refine ⟨result, ⟨x.net, rlc, arq⟩, rfl, ?_⟩
  rcases hcases with ⟨e, hr, harq⟩ | ⟨out, l, hr, harq, hanswers⟩
  · change arq = x.arq at harq
    subst harq
    exact ⟨⟨h.window, h.protects, hinjects⟩, Or.inl ⟨e, hr, rfl⟩⟩
  · change arq = x.arq.setLink peer l at harq
    subst harq
    refine ⟨⟨h.window, h.protects, hinjects⟩, Or.inr ⟨out, hr, ?_⟩⟩
    rw [SelectiveRepeat.link_setLink, if_pos rfl, ← h.window]
    exact hanswers

/-! ## Taking packets in -/

theorem receiveRlc_apply (x : Upper) (packet : Packet) : RlcAbove.receive packet (x.below phy) =
    match SegmentingRlc.receive packet ⟨x.rlc, { x.below phy with rlc := .entered }⟩ with
    | (r, after) => (r, { after.around with
      rlc := after.around.rlc.leave (.segmenting after.layer) }) := rfl

theorem handUpRlc (x : Upper) (rlc : SegmentingRlc) (origin : Address) (datagrams : List Datagram) :
    ∃ inbox, SegmentingRlc.handUp origin datagrams ⟨rlc, { x.below phy with rlc := .entered }⟩ =
      (.ok (), ⟨rlc, { below phy { x with net := { x.net with inbox } } with rlc := .entered }⟩) := by
  induction datagrams generalizing x with
  | nil => exact ⟨x.net.inbox, rfl⟩
  | cons d rest ih =>
    have hnet : NetAbove.receive d origin { x.below phy with rlc := .entered } =
        (.ok (), { below phy { x with net := x.net.receive d origin } with rlc := .entered }) := rfl
    obtain ⟨inbox, hrest⟩ := ih { x with net := x.net.receive d origin }
    refine ⟨inbox, ?_⟩
    rw [SegmentingRlc.handUp, Call.bind_apply, Call.outward_apply, hnet]
    exact hrest

/-- The RLC takes in what can be put together, and hands up what that completes. -/
theorem receiveRlc_of_absorb (x : Upper) {packet : Packet} {complete : List Datagram}
    {streams : Reassembly} (h : Reassembly.absorb packet.origin
      (packet.messages.filterMap Message.segment?) x.rlc.streams = .ok (complete, streams)) :
    ∃ inbox, RlcAbove.receive packet (x.below phy) =
      (.ok (), below phy { x with net := { x.net with inbox }, rlc := { x.rlc with streams } }) := by
  obtain ⟨inbox, hnet⟩ := handUpRlc phy x { x.rlc with streams } packet.origin complete
  refine ⟨inbox, ?_⟩
  rw [receiveRlc_apply, SegmentingRlc.receive, Call.bind_apply, Call.own_apply]
  simp only [Call.bind_apply, Call.ofExcept_apply, h, Call.change_apply, hnet]
  rfl

/-- What the RLC does with a packet stays in the RLC and the network layer. -/
theorem receiveRlc_cases (x : Upper) (packet : Packet) :
    ∃ result inbox streams, RlcAbove.receive packet (x.below phy) =
        (result, below phy { x with net := { x.net with inbox }, rlc := { x.rlc with streams } }) ∧
      (packet.IsSound → result = .ok ()) := by
  cases habsorb : Reassembly.absorb packet.origin (packet.messages.filterMap Message.segment?)
    x.rlc.streams with
  | error e =>
    refine ⟨.error e, x.net.inbox, x.rlc.streams, ?_, ?_⟩
    · rw [receiveRlc_apply, SegmentingRlc.receive, Call.bind_apply, Call.own_apply]
      simp only [Call.bind_apply, Call.ofExcept_apply, habsorb]
      rfl
    · intro hsound
      obtain ⟨r, hr⟩ := hsound.exists_absorb x.rlc.streams
      rw [habsorb] at hr
      cases hr
  | ok found =>
    obtain ⟨inbox, hnet⟩ := receiveRlc_of_absorb phy x habsorb
    exact ⟨.ok (), inbox, found.2, hnet, fun _ => rfl⟩

theorem handUpArq (x : Upper) (arq : SelectiveRepeat) (packets : List Packet) :
    ∃ result inbox streams, SelectiveRepeat.handUp packets ⟨arq, x.below phy⟩ =
        (result, ⟨arq, below phy
          { x with net := { x.net with inbox }, rlc := { x.rlc with streams } }⟩) ∧
      ((∀ p ∈ packets, p.IsSound) → result = .ok ()) := by
  induction packets generalizing x with
  | nil => exact ⟨.ok (), x.net.inbox, x.rlc.streams, rfl, fun _ => rfl⟩
  | cons packet rest ih =>
    obtain ⟨result, inbox, streams, hrlc, hok⟩ := receiveRlc_cases phy x packet
    rw [SelectiveRepeat.handUp, Call.bind_apply, Call.outward_apply, hrlc]
    cases result with
    | error e =>
      refine ⟨.error e, inbox, streams, rfl, ?_⟩
      intro hsound
      cases hok (hsound packet List.mem_cons_self)
    | ok _ =>
      obtain ⟨result, inbox', streams', hrest, hok'⟩ :=
        ih { x with net := { x.net with inbox }, rlc := { x.rlc with streams } }
      exact ⟨result, inbox', streams', hrest, fun hsound => hok' fun p hp =>
        hsound p (List.mem_cons_of_mem _ hp)⟩

theorem receive_apply (x : Upper) (packet : Packet) : ArqAbove.receive packet (x.around phy) =
    match SelectiveRepeat.receive packet ⟨x.arq, x.below phy⟩ with
    | (r, after) => (r, { after.around with
      arq := after.around.arq.leave (.selective after.layer) }) := rfl

/-- A packet without ARQ fields changes no link. -/
theorem IsReady.receive_of_none (h : x.IsReady window) {packet : Packet}
    (hnone : packet.arqHeader? = none) : ∃ result, ∃ after : Upper,
      ArqAbove.receive packet (x.around phy) = (result, after.around phy) ∧
      after.IsReady window ∧ after.arq = x.arq := by
  obtain ⟨result, inbox, streams, hrlc, -⟩ := receiveRlc_cases phy x packet
  rw [receive_apply, SelectiveRepeat.receive_apply, hnone]
  refine ⟨result, { x with net := { x.net with inbox }, rlc := { x.rlc with streams } }, ?_,
    ⟨h.window, h.protects, h.injects⟩, rfl⟩
  simp only [hrlc]
  rfl

/-- A packet with ARQ fields is taken in by the link to its sender, and what the link hands up is
taken by the RLC if it is sound. -/
theorem IsReady.receive_of_some (h : x.IsReady window) {packet : Packet} {header : UnicastHeader}
    (hsome : packet.arqHeader? = some header) (horigin : packet.origin = peer) :
    ∃ result, ∃ after : Upper,
      ArqAbove.receive packet (x.around phy) = (result, after.around phy) ∧
      after.IsReady window ∧
      after.arq.link peer = ((x.arq.link peer).takeIn header packet window).2 ∧
      ((∀ p ∈ ((x.arq.link peer).takeIn header packet window).1, p.IsSound) →
        result = .ok ()) := by
  rw [receive_apply, SelectiveRepeat.receive_apply, hsome, horigin]
  simp only [SelectiveRepeat.takeIn_apply, h.window]
  obtain ⟨result, inbox, streams, hup, hok⟩ := handUpArq phy x
    (x.arq.setLink peer ((x.arq.link peer).takeIn header packet window).2)
    ((x.arq.link peer).takeIn header packet window).1
  rw [hup]
  refine ⟨result, ⟨{ x.net with inbox }, { x.rlc with streams },
    x.arq.setLink peer ((x.arq.link peer).takeIn header packet window).2⟩, rfl,
    ⟨h.window, h.protects, h.injects⟩, ?_, hok⟩
  rw [SelectiveRepeat.link_setLink, if_pos rfl]

end Upper

end DataLink
