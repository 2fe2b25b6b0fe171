import DataLink.Proofs.Station.Linking
import DataLink.Proofs.Station.Requests
import Mathlib.Logic.Relation

/-!
# What a station does

Whatever a host asks of a station, its MAC and the layers above it go through a few kinds of *moves*
(`Upper.Move`): the MAC minds its own business, a layer takes something in or builds a packet, a link
comes up or goes down. So a property that each move keeps is kept by all that a station does
(`Moves.keep`).

Here the calls of the MAC are taken apart into moves, up to the point where a slot is used: receiving
(`exists_receive`), tearing a link down (`removeLink_apply`) and getting ready for a slot
(`exists_getReady`), which never fails as long as the tables of the MAC are in order.

What a station knows of others is not much: which neighbors it heard when, and what was reported to
its network layer. A packet that is heard adds to it (`Upper.hear`), a slot that begins may take from
it (`Upper.pass`), and nothing else is about it (`Upper.KnowsAlike`).
-/

namespace DataLink

open Relation

/-! ## Moves -/

namespace Upper

/-- One move of a MAC and the layers above it. -/
inductive Move : Inside SlotMac Upper → Inside SlotMac Upper → Prop
  /-- The MAC does something about neither its configuration, nor who takes turns, nor its links. -/
  | settle {m after : SlotMac} {x : Upper} (hconfig : after.config = m.config)
      (hschedule : after.schedule.Perm m.schedule) (hlinks : after.links = m.links) :
      Move ⟨m, x⟩ ⟨after, x⟩
  | net {m : SlotMac} {x : Upper} (net : RoutingNet) : Move ⟨m, x⟩ ⟨m, { x with net }⟩
  | streams {m : SlotMac} {x : Upper} (streams : Reassembly) :
      Move ⟨m, x⟩ ⟨m, { x with rlc := { x.rlc with streams } }⟩
  | enqueue {m : SlotMac} {x : Upper} (datagram : Datagram) (dest : Address) (priority : Nat) :
      Move ⟨m, x⟩ ⟨m, { x with rlc := x.rlc.enqueue datagram dest priority }⟩
  /-- A packet that sets up a link is queued. -/
  | inject {m : SlotMac} {x : Upper} {packet : Packet} (h : packet.IsLinkControl) :
      Move ⟨m, x⟩ ⟨m, { x with rlc := x.rlc.inject packet Priority.linkManagement }⟩
  | tick {m : SlotMac} {x : Upper} (slots : Nat) :
      Move ⟨m, x⟩ ⟨m, { x with arq := x.arq.tick slots }⟩
  /-- The ARQ takes a packet in. -/
  | takeIn {m : SlotMac} {x : Upper} (origin : Address) (h : UnicastHeader) (packet : Packet) :
      Move ⟨m, x⟩ ⟨m, { x with arq := (x.arq.takeIn origin h packet).2 }⟩
  /-- A packet is asked for. -/
  | request {m : SlotMac} {x : Upper} {bits : Nat} (hbits : bits ≤ Word.highest) (dest : Address) :
      Move ⟨m, x⟩ ⟨m, (x.request bits dest).2⟩
  | linkUp {m : SlotMac} {x : Upper} (id : Address) :
      Move ⟨m, x⟩ ⟨{ m with links := m.links ++ [id], schedule := m.schedule ++ [id] },
        { x with arq := x.arq.linkUp id }⟩
  | linkDown {m : SlotMac} {x : Upper} (id : Address) :
      Move ⟨m, x⟩ ⟨{ m with
        links := m.links.filter fun peer => peer ≠ id
        schedule := m.schedule.filter fun dest => dest ≠ id },
        { x with arq := { x.arq with links := x.arq.links.erase id } }⟩

/-- Any number of moves. -/
abbrev Moves := ReflTransGen Move

/-- What each move keeps, any number of moves keep. -/
theorem Moves.keep {I : Inside SlotMac Upper → Prop} (hmove : ∀ {s t}, Move s t → I s → I t)
    {s t : Inside SlotMac Upper} (h : Moves s t) (hs : I s) : I t := by
  induction h with
  | refl => exact hs
  | tail _ hlast ih => exact hmove hlast ih

/-! ## What a station knows of others -/

/-- Nothing was heard or forgotten, and no time has passed. -/
structure KnowsAlike (s t : Inside SlotMac Upper) : Prop where
  config : t.layer.config = s.layer.config
  slot : t.layer.slot = s.layer.slot
  neighbors : t.layer.neighbors = s.layer.neighbors
  isGround : t.around.net.isGround = s.around.net.isGround
  reports : t.around.net.neighborHops = s.around.net.neighborHops

theorem KnowsAlike.refl (s : Inside SlotMac Upper) : KnowsAlike s s := ⟨rfl, rfl, rfl, rfl, rfl⟩

theorem KnowsAlike.trans {s t u : Inside SlotMac Upper} (h : KnowsAlike s t)
    (hlater : KnowsAlike t u) : KnowsAlike s u :=
  ⟨hlater.config.trans h.config, hlater.slot.trans h.slot, hlater.neighbors.trans h.neighbors,
    hlater.isGround.trans h.isGround, hlater.reports.trans h.reports⟩

theorem KnowsAlike.hops {s t : Inside SlotMac Upper} (h : KnowsAlike s t) :
    t.around.net.hops = s.around.net.hops := by
  rw [RoutingNet.hops, h.isGround, h.reports, RoutingNet.hops]

/-- What the MAC and the layers above it know once a packet was taken down. -/
def hear (packet : Packet) (s : Inside SlotMac Upper) : Inside SlotMac Upper :=
  if s.layer.hears packet then
    ⟨{ s.layer with neighbors := s.layer.neighbors.hear packet s.layer.slot },
      { s.around with net := s.around.net.hear packet }⟩
  else s

/-- What they know once a slot has begun. -/
def pass (s : Inside SlotMac Upper) : Inside SlotMac Upper :=
  ⟨SlotMac.forgetSilent { s.layer with slot := s.layer.slot + 1 }, s.around⟩

end Upper

open Upper (Move Moves KnowsAlike)

/-! ## Calls in the MAC -/

namespace SlotMac

variable {phy : Seat PhyLayer} {start : Inside SlotMac Upper} {α : Type}

/-- Only moves have led here from `start`, and none of them was about what is known of others. -/
def Settled (phy : Seat PhyLayer) (start : Inside SlotMac Upper) (s : Inside SlotMac Station) :
    Prop :=
  ∃ (m : SlotMac) (x : Upper), s = ⟨m, x.around phy⟩ ∧ Moves start ⟨m, x⟩ ∧ KnowsAlike start ⟨m, x⟩

theorem settled_change {f : SlotMac → SlotMac}
    (h : ∀ (m : SlotMac) (x : Upper), Move ⟨m, x⟩ ⟨f m, x⟩ ∧ KnowsAlike ⟨m, x⟩ ⟨f m, x⟩) :
    (Call.change f : Call (Inside SlotMac Station) Unit).Preserves (Settled phy start) := by
  refine .change ?_
  rintro _ ⟨m, x, rfl, hmoves, hknows⟩
  exact ⟨f m, x, rfl, hmoves.tail (h m x).1, hknows.trans (h m x).2⟩

theorem settled_outward {step : Call Station α} (h : ∀ (m : SlotMac) (x : Upper),
      ∃ result y, step (x.around phy) = (result, Upper.around phy y) ∧ Moves ⟨m, x⟩ ⟨m, y⟩ ∧
        KnowsAlike ⟨m, x⟩ ⟨m, y⟩) :
    (Call.outward step : Call (Inside SlotMac Station) α).Preserves (Settled phy start) := by
  refine .outward ?_
  rintro _ ⟨m, x, rfl, hmoves, hknows⟩
  refine ⟨?_, fun _ _ => trivial⟩
  obtain ⟨result, y, hstep, hstepped, halike⟩ := h m x
  simp only [hstep]
  exact ⟨m, y, rfl, hmoves.trans hstepped, hknows.trans halike⟩

theorem isLinkControl_of_linkControl {m : SlotMac} {frameType : FrameType} {dest : Address}
    {packet : Packet} (htype : frameType = .linkRequest ∨ frameType = .linkReply)
    (h : m.linkControl frameType dest = .ok packet) : packet.IsLinkControl := by
  obtain ⟨header, hheader, h⟩ := bind_eq_ok.1 h
  rw [mapError_eq_ok] at hheader
  rw [control_eq_ok h]
  rcases htype with rfl | rfl
  · obtain ⟨u, -, hheader⟩ := bind_eq_ok.1 hheader
    cases hheader
    exact .request _ u default
  · obtain ⟨u, -, hheader⟩ := bind_eq_ok.1 hheader
    cases hheader
    exact .reply _ u default

theorem settled_inject {packet : Packet} (h : packet.IsLinkControl) :
    (Call.outward (ArqAbove.inject packet) : Call (Inside SlotMac Station) Unit).Preserves
      (Settled phy start) :=
  settled_outward fun _ x => ⟨_, _, Upper.inject_apply phy x packet, .single (.inject h),
    rfl, rfl, rfl, rfl, rfl⟩

/-! ### Receiving -/

theorem settled_establishLink (id : Address) :
    (establishLink id : Call (Inside SlotMac Station) Unit).Preserves (Settled phy start) := by
  refine .bind (settled_change fun m x => ⟨.settle rfl (.refl _) rfl, rfl, rfl, rfl, rfl, rfl⟩)
    fun _ _ => ?_
  refine .bind .look fun m _ => .ite (.pure trivial) ?_
  -- The link comes up in the MAC and in the ARQ, which is one move.
  rintro _ ⟨m, x, rfl, hmoves, hknows⟩
  simp only [Call.bind_apply, Call.change_apply, Call.outward_apply]
  exact ⟨⟨_, _, rfl, hmoves.tail (.linkUp id), hknows.trans ⟨rfl, rfl, rfl, rfl, rfl⟩⟩,
    fun _ _ => trivial⟩

theorem settled_onLinkRequest (origin : Address) :
    (onLinkRequest origin : Call (Inside SlotMac Station) Unit).Preserves (Settled phy start) := by
  refine .bind (settled_establishLink origin) fun _ _ => .bind .look fun m _ => ?_
  refine .bind (.ofLayer fun packet hpacket => isLinkControl_of_linkControl (Or.inr rfl) hpacket)
    fun packet hpacket => settled_inject hpacket

theorem settled_answer (id : Address) (packet : Packet) :
    (answer id packet : Call (Inside SlotMac Station) Unit).Preserves (Settled phy start) :=
  .bind (.ite (settled_onLinkRequest _) (.pure trivial)) fun _ _ =>
    .ite (settled_establishLink _) (.pure trivial)

/-- What is handed up is taken in by the ARQ, and what that hands up changes partial datagrams and
the inbox of the network layer. -/
theorem moves_receive (m : SlotMac) (x : Upper) (packet : Packet) : ∃ result y,
    ArqAbove.receive packet (x.around phy) = (result, Upper.around phy y) ∧
      Moves ⟨m, x⟩ ⟨m, y⟩ ∧ KnowsAlike ⟨m, x⟩ ⟨m, y⟩ := by
  rw [Upper.receive_apply, SelectiveRepeat.receive_apply]
  cases packet.arqHeader? with
  | none =>
    obtain ⟨result, inbox, streams, hrlc, -⟩ := Upper.receiveRlc_cases phy x packet
    simp only [hrlc]
    exact ⟨result, _, rfl, .tail (.single (.net { x.net with inbox })) (.streams streams),
      rfl, rfl, rfl, rfl, rfl⟩
  | some header =>
    obtain ⟨result, inbox, streams, hup, -⟩ := Upper.handUpArq phy x
      (x.arq.takeIn packet.origin header packet).2 (x.arq.takeIn packet.origin header packet).1
    simp only [hup]
    exact ⟨result, _, rfl,
      .tail (.tail (.single (.takeIn packet.origin header packet)) (.net { x.net with inbox }))
        (.streams streams), rfl, rfl, rfl, rfl, rfl⟩

/-- A packet is taken down, and what else is done with it is about links and data only. -/
theorem exists_receive (m : SlotMac) (x : Upper) (phy : Seat PhyLayer) (packet : Packet) :
    ∃ result after y, receive packet ⟨m, x.around phy⟩ = (result, ⟨after, Upper.around phy y⟩) ∧
      Moves ⟨m, x⟩ ⟨after, y⟩ ∧ KnowsAlike (Upper.hear packet ⟨m, x⟩) ⟨after, y⟩ := by
  rw [receive_eq]
  by_cases hhears : m.hears packet = true
  · rw [if_pos hhears, Call.bind_apply, takeDown_apply, Upper.hear, if_pos hhears]
    simp only
    have hrest : (do
        answer m.config.id packet
        if packet.dest.isSymbolic || packet.dest == m.config.id then
          Call.outward (ArqAbove.receive packet) : Call (Inside SlotMac Station) Unit).Preserves
        (Settled phy ⟨{ m with neighbors := m.neighbors.hear packet m.slot },
          { x with net := x.net.hear packet }⟩) :=
      .bind (settled_answer _ packet) fun _ _ =>
        .ite (settled_outward fun m x => moves_receive m x packet) (.pure trivial)
    obtain ⟨after, y, haround, hmoves, hknows⟩ := (hrest _ ⟨_, _, rfl, .refl, .refl _⟩).1
    have hnoted : Move ⟨m, x⟩ ⟨{ m with neighbors := m.neighbors.hear packet m.slot }, x⟩ :=
      .settle rfl (.refl _) rfl
    have htold : Move ⟨{ m with neighbors := m.neighbors.hear packet m.slot }, x⟩
        ⟨{ m with neighbors := m.neighbors.hear packet m.slot },
          { x with net := x.net.hear packet }⟩ := .net _
    exact ⟨_, after, y, Prod.ext rfl haround, .head hnoted (.head htold hmoves), hknows⟩
  · rw [if_neg hhears, Upper.hear, if_neg hhears]
    exact ⟨_, m, x, rfl, .refl, .refl _⟩

/-! ### Tearing down -/

/-- In a station a link is torn down in the MAC and in the ARQ, or there is none in the MAC and nothing
changes. It only fails in the ARQ if that does not know the link. -/
theorem removeLink_apply (m : SlotMac) (x : Upper) (id : Address) :
    removeLink id ⟨m, x.around phy⟩ =
      if m.hasLink id then
        (if x.arq.links.contains id then .ok () else .error (.layer (.unknownId id)),
          ⟨{ m with
            links := m.links.filter fun peer => peer ≠ id
            schedule := m.schedule.filter fun dest => dest ≠ id },
          Upper.around phy { x with arq := { x.arq with links := x.arq.links.erase id } }⟩)
      else (.error (.layer (.unknownId id)), ⟨m, x.around phy⟩) := by
  have hdown : x.arq.linkDown id =
      if x.arq.links.contains id then .ok { x.arq with links := x.arq.links.erase id }
      else .error (.unknownId id) := by
    rw [SelectiveRepeat.linkDown, SelectiveRepeat.knownLink?, Table.contains]
    cases x.arq.links.get? id <;> rfl
  unfold removeLink
  rw [Call.bind_apply, Call.own_apply]
  simp only
  cases m.hasLink id with
  | false => rfl
  | true =>
    simp only [if_true, Call.bind_apply, Call.change_apply, Call.outward_apply,
      Upper.linkDown_apply, hdown]
    cases hknown : x.arq.links.contains id with
    | true => rfl
    | false =>
      rw [Table.contains, Option.isSome_eq_false_iff, Option.isNone_iff_eq_none] at hknown
      rw [Table.erase_eq_self hknown]
      rfl

/-! ### Getting ready for a slot -/

theorem exists_askEach {dests : List Address} (hdests : ∀ dest ∈ dests, dest.isSymbolic = false)
    (m : SlotMac) (x : Upper) : ∃ awaiting y,
      askEach dests ⟨m, x.around phy⟩ = (.ok (), ⟨{ m with awaiting }, Upper.around phy y⟩) ∧
        Moves ⟨m, x⟩ ⟨{ m with awaiting }, y⟩ ∧ y.net = x.net := by
  induction dests generalizing m x with
  | nil => exact ⟨m.awaiting, x, rfl, .refl, rfl⟩
  | cons next rest ih =>
    obtain ⟨packet, hpacket, hstep⟩ := askEach_cons m x phy (hdests next List.mem_cons_self) rest
    obtain ⟨awaiting, y, hrest, hmoves, hnet⟩ := ih
      (fun d hd => hdests d (List.mem_cons_of_mem _ hd))
      { m with awaiting := m.awaiting.insert next m.slot }
      { x with rlc := x.rlc.inject packet Priority.linkManagement }
    have hinject := Move.inject (m := m) (x := x)
      (isLinkControl_of_linkControl (Or.inl rfl) hpacket)
    have hnoted : Move
        ⟨m, { x with rlc := x.rlc.inject packet Priority.linkManagement }⟩
        ⟨{ m with awaiting := m.awaiting.insert next m.slot },
          { x with rlc := x.rlc.inject packet Priority.linkManagement }⟩ := .settle rfl (.refl _) rfl
    exact ⟨awaiting, y, hstep.trans hrest,
      (ReflTransGen.single hinject).trans (.head hnoted hmoves), hnet⟩

/-- What becomes of the MAC and the layers above it until they are ready for a slot. -/
structure Readies (m : SlotMac) (x : Upper) (ready : SlotMac) (before : Upper) : Prop where
  slot : ready.slot = m.slot + 1
  links : ready.links = m.links
  moves : Moves ⟨m, x⟩ ⟨ready, before⟩
  knows : KnowsAlike (Upper.pass ⟨m, x⟩) ⟨ready, before⟩

/-- If its tables are in order, the MAC always gets ready for a slot. -/
theorem exists_getReady {m : SlotMac} (hm : m.IsTracked) (x : Upper) (phy : Seat PhyLayer) :
    ∃ ready before, getReady ⟨m, x.around phy⟩ = (.ok (), ⟨ready, Upper.around phy before⟩) ∧
      Readies m x ready before := by
  have hforget : ∀ m : SlotMac, m.forgetSilent = { m with neighbors := m.forgetSilent.neighbors } := by
    intro m
    unfold forgetSilent
    simp only
    split <;> rfl
  have hforgotten := hforget { m with slot := m.slot + 1 }
  generalize hneighbors : (forgetSilent { m with slot := m.slot + 1 }).neighbors = neighbors
    at hforgotten
  have hpending : ∀ dest ∈ (renewOverdue { m with slot := m.slot + 1, neighbors }).pending,
      dest.isSymbolic = false := by
    intro dest hdest
    have htracked := (linksAlike_renewOverdue { m with slot := m.slot + 1, neighbors }).isTracked hm
    refine (htracked dest ?_).1
    rw [isAsked, List.contains_iff_mem.2 hdest, Bool.or_true]
  obtain ⟨awaiting, y, hasked, hmoves, hnet⟩ := exists_askEach hpending
    { renewOverdue { m with slot := m.slot + 1, neighbors } with pending := [] }
    { x with arq := x.arq.tick 1 }
  refine ⟨{ renewOverdue { m with slot := m.slot + 1, neighbors } with pending := [], awaiting }, y,
    ?_, rfl, rfl, ?_, ?_⟩
  · simp only [getReady, requestLinks, Call.bind_apply, Call.change_apply, Call.outward_apply,
      Upper.tick_apply, Call.own_apply, hforgotten]
    exact hasked
  · refine .head (.tick 1) (.head ?_ hmoves)
    exact .settle rfl (.refl _) rfl
  · rw [Upper.pass, hforgotten]
    exact ⟨rfl, rfl, rfl, congrArg RoutingNet.isGround hnet, congrArg RoutingNet.neighborHops hnet⟩

end SlotMac

end DataLink
