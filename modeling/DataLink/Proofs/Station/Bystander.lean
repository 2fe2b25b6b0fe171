import DataLink.Proofs.Composition
import DataLink.Proofs.Rlc.Streams
import DataLink.Proofs.Station.Whole

/-!
# What a station overhears

The MAC drops a packet for another station. A packet that holds a beacon or a broadcast as well is
shared, though, and the MAC hands it up as a whole; neither the ARQ nor the RLC looks at whom a
unicast header is for. A station that gets such a packet *overhears* what is in it for another one
(`Packet.isOverheard`): it takes the ARQ fields for those of its own link to the sender, and puts
the other station's datagrams together.

**Theorem (`Station.keepsOut_unless_isOverheard`).** A station treats a packet as if the messages
for others were not in it (`Station.KeepsOut`), in every state that it can get into, unless it
overhears the packet; and then there is a state in which they change a link of the station, or what
its RLC has (`Station.IsDisturbed`).

The packets are those that were put together message by message. All unicast headers of such a
packet lead to one station, so what is left without the messages for others has no unicast header at
all.

To see that a segment makes a difference, the station is first given the beginning of another
datagram on the same stream, at an offset that the segment does not continue. It then loses what it
held.
-/

namespace DataLink

/-! ## Overhearing -/

/-- The station `id` hears what the packet holds for another one: it is shared, and a message for
that other station has fields for the ARQ or part of a datagram. -/
def Packet.isOverheard (id : Address) (p : Packet) : Bool :=
  p.origin.isSet && p.origin != id && p.isShared &&
    p.messages.any fun m => m.isForOther id && (m.isMarked || m.segment?.isSome)

theorem Packet.isOverheard_iff {id : Address} {p : Packet} : p.isOverheard id = true ↔
    (p.origin.isSet = true ∧ p.origin ≠ id) ∧ p.isShared = true ∧ ∃ m ∈ p.messages,
      m.isForOther id = true ∧ (m.isMarked = true ∨ m.segment?.isSome = true) := by
  simp only [isOverheard, Bool.and_eq_true, List.any_eq_true, Bool.or_eq_true, bne_iff_ne, ne_eq,
    and_assoc]

/-- The same transmission without the messages for other stations than `id`. -/
def Transmission.withoutOthers (id : Address) (t : Transmission) : Transmission :=
  { t with packet := t.packet.withoutOthers id }

/-- The same call without the messages for other stations than `id` in what is received. -/
def StationCall.withoutOthers (id : Address) : StationCall → StationCall
  | .receive t => .receive (t.withoutOthers id)
  | call => call

/-- The station does with the transmission exactly what it does with one that has no message for
others. -/
def Station.KeepsOut (id : Address) (t : Transmission) (s : Station) : Prop :=
  receive t s = receive (t.withoutOthers id) s

/-- The messages for others change a link of the station, or what its RLC has. -/
def Station.IsDisturbed (id : Address) (t : Transmission) (s : Station) : Prop :=
  (receive t s).2.arq ≠ (receive (t.withoutOthers id) s).2.arq ∨
    (receive t s).2.rlc ≠ (receive (t.withoutOthers id) s).2.rlc

theorem Station.KeepsOut.not_isDisturbed {id : Address} {t : Transmission} {s : Station}
    (h : KeepsOut id t s) : ¬ IsDisturbed id t s := by
  rw [IsDisturbed, h]
  simp

namespace Packet.LeadsTo

variable {p : Packet} {id dest : Address}

theorem arqHeader?_eq_none (h : p.LeadsTo dest) (hne : dest ≠ id)
    (hunmarked : ∀ m ∈ p.messages, m.isForOther id = true → m.isMarked = false) :
    p.arqHeader? = none := by
  have hfind : p.unicastHeaders.find? UnicastHeader.useArq = none := by
    refine List.find?_eq_none.2 fun u hu => ?_
    obtain ⟨m, hm, hu⟩ := mem_unicastHeaders_iff.1 hu
    have hmarked := hunmarked m hm (by rw [h.isForOther hne hm, hu]; rfl)
    simpa [Message.isMarked, hu] using hmarked
  rw [arqHeader?, hfind]
  exact ite_self none

theorem arqHeader?_withoutOthers (h : p.LeadsTo dest) (hne : dest ≠ id) :
    (p.withoutOthers id).arqHeader? = none := by
  refine Packet.arqHeader?_eq_none ?_
  rw [h.unicastHeaders_withoutOthers hne]
  rfl

end Packet.LeadsTo

theorem Packet.isMarked_of_arqHeader? {p : Packet} (hset : p.origin.isSet = true)
    (h : p.arqHeader? = none) {m : Message} (hm : m ∈ p.messages) : m.isMarked = false := by
  rw [arqHeader?, if_pos hset, List.find?_eq_none] at h
  rw [Message.isMarked]
  cases hu : m.unicast? with
  | none => rfl
  | some u => exact Bool.eq_false_iff.2 (h u (mem_unicastHeaders_iff.2 ⟨m, hm, hu⟩))

/-! ## Above the MAC -/

namespace Upper

variable (phy : Seat PhyLayer)

/-- The RLC asks for no more than the sender and the segments, if the ARQ has nothing to do. -/
theorem receive_congr (x : Upper) {p q : Packet} (hp : p.arqHeader? = none)
    (hq : q.arqHeader? = none) (horigin : p.origin = q.origin)
    (hsegments : p.messages.filterMap Message.segment? = q.messages.filterMap Message.segment?) :
    ArqAbove.receive p (x.around phy) = ArqAbove.receive q (x.around phy) := by
  have hrlc : (SegmentingRlc.receive p : Call (Inside SegmentingRlc Station) Unit) =
      SegmentingRlc.receive q := by
    unfold SegmentingRlc.receive
    rw [horigin, hsegments]
  rw [receive_apply, SelectiveRepeat.receive_apply, hp, receive_apply,
    SelectiveRepeat.receive_apply, hq]
  simp only [receiveRlc_apply, hrlc]

theorem receive_nothing (x : Upper) {p : Packet} (hp : p.arqHeader? = none)
    (hsegments : p.messages.filterMap Message.segment? = []) :
    ArqAbove.receive p (x.around phy) = (.ok (), x.around phy) := by
  have hrlc : ∀ s : Inside SegmentingRlc Station, SegmentingRlc.receive p s = (.ok (), s) := by
    intro s
    unfold SegmentingRlc.receive
    rw [hsegments]
    rfl
  rw [receive_apply, SelectiveRepeat.receive_apply, hp]
  simp only [receiveRlc_apply, hrlc]
  rfl

theorem exists_receive_of_none (x : Upper) {p : Packet} (hp : p.arqHeader? = none) :
    ∃ after : Upper, (ArqAbove.receive p (x.around phy)).2 = after.around phy ∧
      after.arq = x.arq ∧ ∀ complete streams, Reassembly.absorb p.origin
        (p.messages.filterMap Message.segment?) x.rlc.streams = .ok (complete, streams) →
          after.rlc.streams = streams := by
  rw [receive_apply, SelectiveRepeat.receive_apply, hp]
  cases habsorb : Reassembly.absorb p.origin (p.messages.filterMap Message.segment?)
    x.rlc.streams with
  | error e =>
    obtain ⟨result, inbox, streams, hrlc, -⟩ := receiveRlc_cases phy x p
    simp only [hrlc]
    exact ⟨{ x with net := { x.net with inbox }, rlc := { x.rlc with streams } }, rfl, rfl,
      fun _ _ h => by cases h⟩
  | ok found =>
    obtain ⟨inbox, hrlc⟩ := receiveRlc_of_absorb phy x habsorb
    simp only [hrlc]
    refine ⟨{ x with net := { x.net with inbox }, rlc := { x.rlc with streams := found.2 } }, rfl,
      rfl, ?_⟩
    rintro complete streams h
    cases h
    rfl

theorem exists_receive_of_some (x : Upper) {p : Packet} {header : UnicastHeader}
    (hp : p.arqHeader? = some header) : ∃ after : Upper,
      (ArqAbove.receive p (x.around phy)).2 = after.around phy ∧
        (after.arq.links.get? p.origin).isSome = true := by
  obtain ⟨result, inbox, streams, hup, -⟩ := handUpArq phy x
    (x.arq.takeIn p.origin header p).2 (x.arq.takeIn p.origin header p).1
  rw [receive_apply, SelectiveRepeat.receive_apply, hp]
  simp only [hup]
  refine ⟨⟨{ x.net with inbox }, { x.rlc with streams }, (x.arq.takeIn p.origin header p).2⟩,
    rfl, ?_⟩
  rw [SelectiveRepeat.takeIn_apply]
  simp [SelectiveRepeat.setLink, Table.get?_insert]

end Upper

/-! ## In the MAC -/

namespace SlotMac

variable {p : Packet} {dest : Address} {m : SlotMac}

theorem asks_and_grants_none (h : p.LeadsTo dest) {id : Address} (hne : dest ≠ id) :
    ((summarize id p).isRequest || (summarize id p).isReply) = false := by
  have hnone : ∀ header ∈ p.headers, ∀ u, header.unicast? = some u → u.dest ≠ id :=
    fun header hheader u hu => h.headers u (List.mem_filterMap.2 ⟨header, hheader, hu⟩) ▸ hne
  have hrequest : (summarize id p).isRequest = false := by
    refine List.any_eq_false.2 fun header hheader => ?_
    cases header with
    | linkRequest u reservation => simpa using hnone _ hheader u rfl
    | _ => exact Bool.false_ne_true
  have hreply : (summarize id p).isReply = false := by
    refine List.any_eq_false.2 fun header hheader => ?_
    cases header with
    | linkReply u reservation => simpa using hnone _ hheader u rfl
    | _ => exact Bool.false_ne_true
  rw [hrequest, hreply]
  rfl

theorem takeDown_withoutOthers (hp : p.IsComposed) (h : p.LeadsTo dest) {id : Address}
    (hne : dest ≠ id) : (takeDown (p.withoutOthers id) : Call (Inside SlotMac Station) Unit) =
      takeDown p := by
  have hbeacon : ∀ own, (summarize own (p.withoutOthers id)).beacon = (summarize own p).beacon := by
    intro own
    simp only [summarize]
    rw [h.headers_withoutOthers hne, List.filterMap_filter]
    refine congrArg List.getLast? (List.filterMap_congr fun header _ => ?_)
    cases header <;> rfl
  unfold takeDown
  simp only [h.origin_withoutOthers hne hp, hbeacon]

theorem receive_elsewhere (h : p.LeadsTo dest) (hne : dest ≠ m.config.id) (hhears : m.hears p)
    (x : Upper) (phy : Seat PhyLayer) : receive p ⟨m, x.around phy⟩ =
      (do
        takeDown p
        if p.dest.isSymbolic || p.dest == m.config.id then Call.outward (ArqAbove.receive p) :
        Call (Inside SlotMac Station) Unit) ⟨m, x.around phy⟩ := by
  rw [receive_eq, if_pos hhears]
  simp only [answer_eq_pure (asks_and_grants_none h hne), pure_bind]

/-- What is left of a packet that is not overheard comes to the same. -/
theorem receive_withoutOthers (hp : p.IsComposed) (h : p.LeadsTo dest) (hne : dest ≠ m.config.id)
    (hused : p.unicastHeaders ≠ []) (hover : p.isOverheard m.config.id = false) (x : Upper)
    (phy : Seat PhyLayer) : receive (p.withoutOthers m.config.id) ⟨m, x.around phy⟩ =
      receive p ⟨m, x.around phy⟩ := by
  have hleft := h.withoutOthers hne
  have hears_eq : m.hears (p.withoutOthers m.config.id) = m.hears p := by
    rw [hears, h.origin_withoutOthers hne hp, hears]
  cases hhears : m.hears p with
  | false =>
    rw [hhears] at hears_eq
    simp only [receive_eq, hears_eq, hhears, Bool.false_eq_true, if_false]
  | true =>
    rw [hhears] at hears_eq
    rw [receive_elsewhere h hne hhears, receive_elsewhere hleft hne hears_eq,
      takeDown_withoutOthers hp h hne, Call.bind_apply, Call.bind_apply, takeDown_apply]
    simp only
    cases hshared : p.isShared with
    | true =>
      have hshared' := (h.isShared_withoutOthers hne).trans hshared
      have hspared : ∀ u ∈ p.messages, u.isForOther m.config.id = true →
          u.isMarked = false ∧ u.segment? = none := by
        rw [hears] at hhears
        rw [Packet.isOverheard, hhears, hshared, Bool.true_and, Bool.true_and,
          List.any_eq_false] at hover
        intro u hu hother
        simpa [hother] using hover u hu
      rw [Packet.dest_of_isShared hshared, Packet.dest_of_isShared hshared']
      simp only [Bool.true_or, if_true, Call.outward_apply]
      rw [Upper.receive_congr phy _ (h.arqHeader?_withoutOthers hne)
        (h.arqHeader?_eq_none hne fun u hu hother => (hspared u hu hother).1)
        (h.origin_withoutOthers hne hp)
        (Packet.segments_withoutOthers fun u hu hother => (hspared u hu hother).2)]
    | false =>
      have hdest : p.dest = dest := by
        rw [Packet.dest_of_not_isShared hshared]
        cases hheaders : p.unicastHeaders with
        | nil => exact absurd hheaders hused
        | cons u rest => exact h.headers u (hheaders ▸ List.mem_cons_self)
      have hup : ((p.withoutOthers m.config.id).dest.isSymbolic ||
          (p.withoutOthers m.config.id).dest == m.config.id) = true := by
        rw [Packet.dest_of_not_isShared ((h.isShared_withoutOthers hne).trans hshared),
          h.unicastHeaders_withoutOthers hne]
        rfl
      have hdrop : (p.dest.isSymbolic || p.dest == m.config.id) = false := by
        rw [hdest, h.station]
        simpa using hne
      simp only [hup, hdrop, if_true, Bool.false_eq_true, if_false, Call.outward_apply,
        Call.pure_apply]
      rw [Upper.receive_nothing phy _ (h.arqHeader?_withoutOthers hne)
        (h.segments_of_not_isShared hne hshared)]

theorem receive_shared (h : p.LeadsTo dest) (hne : dest ≠ m.config.id) (hhears : m.hears p)
    (hshared : p.isShared = true) (x : Upper) (phy : Seat PhyLayer) :
    ∃ (after : SlotMac) (net : RoutingNet), after.config = m.config ∧
      receive p ⟨m, x.around phy⟩ =
        Call.outward (ArqAbove.receive p) ⟨after, Upper.around phy { x with net }⟩ := by
  refine ⟨{ m with neighbors := m.neighbors.hear p m.slot }, x.net.hear p, rfl, ?_⟩
  rw [receive_elsewhere h hne hhears, Call.bind_apply, takeDown_apply,
    Packet.dest_of_isShared hshared]
  simp only [Bool.true_or, if_true]

end SlotMac

/-! ## Whole stations -/

namespace Station

variable {id : Address} {s : Station} {t : Transmission}

theorem IsWhole.keepsOut (h : s.IsWhole id) (ht : t.packet.IsComposed)
    (hover : t.packet.isOverheard id = false) : KeepsOut id t s := by
  obtain ⟨x, m, p, rfl, rfl⟩ := h
  obtain ⟨dest, hleads⟩ := ht.exists_leadsTo
  by_cases hothers : ∃ u ∈ t.packet.messages, u.isForOther m.config.id = true
  · obtain ⟨u, hu, hother⟩ := hothers
    have hne := hleads.ne_of_isForOther hu hother
    obtain ⟨header, hheader, -⟩ := Message.isForOther_iff.1 hother
    have hused : t.packet.unicastHeaders ≠ [] :=
      List.ne_nil_of_mem (Packet.mem_unicastHeaders_iff.2 ⟨u, hu, hheader⟩)
    rw [KeepsOut, receive_apply, receive_apply, Transmission.withoutOthers,
      SlotMac.receive_withoutOthers ht hleads hne hused hover]
  · have hself : t.withoutOthers m.config.id = t := by
      rw [Transmission.withoutOthers, Packet.withoutOthers_eq_self fun u hu =>
        Bool.eq_false_iff.2 fun hother => hothers ⟨u, hu, hother⟩]
    rw [KeepsOut, hself]

/-- **Runs.** As long as nothing is overheard, a station gets where it would have got without any
message for others. -/
theorem IsWhole.run_withoutOthers (h : s.IsWhole id) (calls : List StationCall)
    (hcalls : ∀ t, .receive t ∈ calls →
      t.packet.IsComposed ∧ t.packet.isOverheard id = false) :
    s.run (calls.map (StationCall.withoutOthers id)) = s.run calls := by
  induction calls generalizing s with
  | nil => rfl
  | cons call rest ih =>
    have hstep : s.step (call.withoutOthers id) = s.step call := by
      cases call with
      | receive t =>
        obtain ⟨ht, hover⟩ := hcalls t List.mem_cons_self
        exact (congrArg Prod.snd (h.keepsOut ht hover)).symm
      | _ => rfl
    have hrest := ih (h.step call) fun t ht => hcalls t (List.mem_cons_of_mem _ ht)
    rw [List.map_cons, Station.run, List.foldl_cons, hstep]
    exact hrest

theorem receive_shared {x : Upper} {m : SlotMac} {dest : Address} (h : t.packet.LeadsTo dest)
    (hne : dest ≠ m.config.id) (hhears : m.hears t.packet) (hshared : t.packet.isShared = true)
    (p : OutboxPhy) : ∃ (after : SlotMac) (net : RoutingNet), after.config = m.config ∧
      ∀ y : Upper, (ArqAbove.receive t.packet (Upper.around .entered { x with net })).2 =
        y.around .entered → (receive t (x.station m p)).2 = y.station after p := by
  obtain ⟨after, net, hconfig, hreceive⟩ := SlotMac.receive_shared h hne hhears hshared x .entered
  refine ⟨after, net, hconfig, fun y hy => ?_⟩
  rw [receive_apply, hreceive, Call.outward_apply, hy]
  rfl

variable {x : Upper} {m : SlotMac} {dest : Address}

/-- What is left of an overheard packet changes neither a link nor the stream from its sender to the
station that it is for. -/
theorem exists_receive_left (ht : t.packet.IsComposed) (h : t.packet.LeadsTo dest)
    (hne : dest ≠ m.config.id) (hhears : m.hears t.packet) (hshared : t.packet.isShared = true)
    (p : OutboxPhy) : ∃ (after : SlotMac) (y : Upper),
      (receive (t.withoutOthers m.config.id) (x.station m p)).2 = y.station after p ∧
        y.arq = x.arq ∧ (t.packet.IsSound → y.rlc.streams.get? ⟨t.packet.origin, dest⟩ =
          x.rlc.streams.get? ⟨t.packet.origin, dest⟩) := by
  have horigin : (t.withoutOthers m.config.id).packet.origin = t.packet.origin :=
    h.origin_withoutOthers hne ht
  have hhears' : m.hears (t.withoutOthers m.config.id).packet = true := by
    rw [SlotMac.hears, horigin]
    exact hhears
  obtain ⟨after, net, -, hafter⟩ := receive_shared (x := x) (t := t.withoutOthers m.config.id)
    (h.withoutOthers hne) hne hhears' ((h.isShared_withoutOthers hne).trans hshared) p
  obtain ⟨y, hy, harq, habsorbed⟩ := Upper.exists_receive_of_none .entered { x with net }
    (h.arqHeader?_withoutOthers hne)
  refine ⟨after, y, hafter y hy, harq, fun hsound => ?_⟩
  obtain ⟨⟨complete, streams⟩, habsorb⟩ :=
    (hsound.withoutOthers m.config.id).exists_absorb x.rlc.streams
  have hnone : Reassembly.onChannel dest
      ((t.packet.withoutOthers m.config.id).messages.filterMap Message.segment?) = [] := by
    refine List.filterMap_eq_nil_iff.2 ?_
    rintro ⟨channel, fragment, segment⟩ hs
    obtain ⟨u, hu, hs⟩ := List.mem_filterMap.1 hs
    have hchannel := (h.segment_withoutOthers hne hu hs).2
    refine if_neg fun hdest => ?_
    have hstation := h.station
    rw [← hdest, hchannel] at hstation
    cases hstation
  obtain ⟨found, hstream⟩ := Reassembly.get?_absorb habsorb dest
  rw [hnone, h.origin_withoutOthers hne ht] at hstream
  rw [habsorbed complete streams habsorb]
  exact (congrArg Prod.snd (Except.ok.inj hstream)).symm

theorem exists_receive_marked (h : t.packet.LeadsTo dest) (hne : dest ≠ m.config.id)
    (hhears : m.hears t.packet) (hshared : t.packet.isShared = true) {header : UnicastHeader}
    (hmarked : t.packet.arqHeader? = some header) (p : OutboxPhy) :
    ∃ (after : SlotMac) (y : Upper), (receive t (x.station m p)).2 = y.station after p ∧
      (y.arq.links.get? t.packet.origin).isSome = true := by
  obtain ⟨after, net, -, hafter⟩ := receive_shared (x := x) h hne hhears hshared p
  obtain ⟨y, hy, hlink⟩ := Upper.exists_receive_of_some .entered { x with net } hmarked
  exact ⟨after, y, hafter y hy, hlink⟩

theorem exists_receive_unmarked (h : t.packet.LeadsTo dest) (hne : dest ≠ m.config.id)
    (hhears : m.hears t.packet) (hshared : t.packet.isShared = true)
    (hunmarked : t.packet.arqHeader? = none) (p : OutboxPhy) {complete : List Datagram}
    {streams : Reassembly} (habsorb : Reassembly.absorb t.packet.origin
      (t.packet.messages.filterMap Message.segment?) x.rlc.streams = .ok (complete, streams)) :
    ∃ (after : SlotMac) (y : Upper), (receive t (x.station m p)).2 = y.station after p ∧
      after.config = m.config ∧ y.rlc.streams = streams := by
  obtain ⟨after, net, hconfig, hafter⟩ := receive_shared (x := x) h hne hhears hshared p
  obtain ⟨y, hy, -, habsorbed⟩ := Upper.exists_receive_of_none .entered { x with net } hunmarked
  exact ⟨after, y, hafter y hy, hconfig, habsorbed complete streams habsorb⟩

end Station

/-! ## Packets that are overheard -/

/-- A broadcast with nothing in it, and beside it a message for one station. -/
def Packet.beside (source : Address) (u : UnicastHeader) (payload : Option Payload) : Packet :=
  .ofMessages [⟨some (.base (.ofSource source)), none⟩, ⟨some (.broadcast default), none⟩,
    ⟨some (.unicast u), payload⟩]

theorem Packet.isComposed_beside (source : Address) {u : UnicastHeader}
    (hu : u.dest.isSymbolic = false) (payload : Option Payload) :
    (beside source u payload).IsComposed := by
  refine (IsComposed.empty []).addAll (beside source u payload).messages ?_
  have hcheck : checkNext [.base (.ofSource source), .broadcast default] (.unicast u) = .ok () := by
    simp only [checkNext, hu]
    rfl
  have hadd : add (.ofMessages (beside source u payload).messages.dropLast) (some (.unicast u))
      payload = .ok (beside source u payload) := bind_eq_ok.2 ⟨(), hcheck, rfl⟩
  exact bind_eq_ok.2 ⟨_, rfl, bind_eq_ok.2 ⟨_, rfl, bind_eq_ok.2 ⟨_, hadd, rfl⟩⟩⟩

theorem Packet.leadsTo_beside (source : Address) {u : UnicastHeader}
    (hu : u.dest.isSymbolic = false) (payload : Option Payload) :
    (beside source u payload).LeadsTo u.dest :=
  ⟨hu, fun v hv => by rw [List.mem_singleton.1 hv]⟩

/-- The first bits of a datagram for one station. -/
def Packet.opening (source dest : Address) (held : Partial) : Packet :=
  beside source { (default : UnicastHeader) with dest, fragment := ⟨true, false⟩ }
    (some (.segment ⟨held.datagram, 0, held.received⟩))

namespace Station

variable {id dest : Address} {t : Transmission} {x : Upper} {m : SlotMac}

theorem exists_receive_opening {source : Address} (hsource : source.isSet = true)
    (hown : source ≠ m.config.id) (hdest : dest.isSymbolic = false) (hne : dest ≠ m.config.id)
    (held : Partial) (hfits : Word.fits held.received) (frequency : Nat) (p : OutboxPhy) :
    ∃ (after : SlotMac) (y : Upper),
      (receive ⟨.opening source dest held, frequency⟩ (x.station m p)).2 = y.station after p ∧
        after.config = m.config ∧ y.rlc.streams.get? ⟨source, dest⟩ = some held := by
  have habsorb : Reassembly.absorb source [(dest, ⟨true, false⟩, ⟨held.datagram, 0, held.received⟩)]
      x.rlc.streams = .ok ([], x.rlc.streams.set ⟨source, dest⟩ (some held)) := by
    have hsum : checkedSum 0 held.received = .ok held.received := by
      rw [checkedSum, Nat.zero_add, if_pos hfits]
    simp only [Reassembly.absorb, Partial.extend, if_true, ne_eq, not_true_eq_false, if_false, hsum]
    rfl
  have hhears : m.hears (.opening source dest held) = true := by
    rw [SlotMac.hears, show (Packet.opening source dest held).origin = source from rfl, hsource]
    simpa using hown
  have harq : (Packet.opening source dest held).arqHeader? = none := ite_self none
  obtain ⟨after, y, hy, hconfig, hstreams⟩ := exists_receive_unmarked (x := x)
    (t := ⟨.opening source dest held, frequency⟩) (Packet.leadsTo_beside source hdest _) hne
    hhears rfl harq p habsorb
  refine ⟨after, y, hy, hconfig, ?_⟩
  rw [hstreams, Table.get?_set_self]

theorem isDisturbed_marked (ht : t.packet.IsComposed) (h : t.packet.LeadsTo dest)
    (hne : dest ≠ m.config.id) (hhears : m.hears t.packet) (hshared : t.packet.isShared = true)
    {header : UnicastHeader} (hmarked : t.packet.arqHeader? = some header)
    (hnew : x.arq.links.get? t.packet.origin = none) (p : OutboxPhy) :
    IsDisturbed m.config.id t (x.station m p) := by
  obtain ⟨_, y, hy, hlink⟩ := exists_receive_marked (x := x) h hne hhears hshared hmarked p
  obtain ⟨_, z, hz, harq, -⟩ := exists_receive_left (x := x) ht h hne hhears hshared p
  refine Or.inl fun hsame => ?_
  rw [hy, hz] at hsame
  have hsame : y.arq = z.arq := ArqLayer.selective.inj (Seat.idle.inj hsame)
  rw [hsame, harq, hnew] at hlink
  cases hlink

theorem isDisturbed_unmarked (ht : t.packet.IsComposed) (hsound : t.packet.IsSound)
    (h : t.packet.LeadsTo dest) (hne : dest ≠ m.config.id) (hhears : m.hears t.packet)
    (hshared : t.packet.isShared = true) (hunmarked : t.packet.arqHeader? = none)
    {held : Partial} (hheld : x.rlc.streams.get? ⟨t.packet.origin, dest⟩ = some held)
    {fragment : Fragment} {segment : Segment} {rest : List (Fragment × Segment)}
    (hpieces : Reassembly.onChannel dest (t.packet.messages.filterMap Message.segment?) =
      (fragment, segment) :: rest) (hoffset : held.received ≠ segment.offset)
    (hothers : ∀ piece ∈ (fragment, segment) :: rest, piece.2.datagram ≠ held.datagram)
    (p : OutboxPhy) : IsDisturbed m.config.id t (x.station m p) := by
  obtain ⟨⟨complete, streams⟩, habsorb⟩ := hsound.exists_absorb x.rlc.streams
  obtain ⟨_, y, hy, -, hstreams⟩ := exists_receive_unmarked (x := x) h hne hhears hshared hunmarked
    p habsorb
  obtain ⟨_, z, hz, -, hleft⟩ := exists_receive_left (x := x) ht h hne hhears hshared p
  refine Or.inr fun hsame => ?_
  rw [hy, hz] at hsame
  have hsame : y.rlc = z.rlc := RlcLayer.segmenting.inj (Seat.idle.inj hsame)
  obtain ⟨found, hstream⟩ := Reassembly.get?_absorb habsorb dest
  rw [hpieces, hheld] at hstream
  have hlacks := Partial.lacks_absorb hoffset hothers hstream
  rw [← hstreams, hsame, hleft hsound, hheld] at hlacks
  exact hlacks held rfl rfl

/-- What is overheard without fields for the ARQ is a segment. After some other packet, the station
holds a part of a datagram which that segment discards. -/
theorem IsWhole.exists_isDisturbed {s : Station} (h : s.IsWhole id) (ht : t.packet.IsComposed)
    (hsound : t.packet.IsSound) (hover : t.packet.isOverheard id = true)
    (hunmarked : t.packet.arqHeader? = none) :
    ∃ u : Transmission, u.packet.IsComposed ∧ IsDisturbed id t (Station.receive u s).2 := by
  obtain ⟨x, m, p, rfl, rfl⟩ := h
  obtain ⟨⟨hset, hown⟩, hshared, message, hmessage, hother, hused⟩ := Packet.isOverheard_iff.1 hover
  obtain ⟨dest, hleads⟩ := ht.exists_leadsTo
  have hne := hleads.ne_of_isForOther hmessage hother
  have hpieces : Reassembly.onChannel dest (t.packet.messages.filterMap Message.segment?) ≠ [] := by
    obtain ⟨⟨channel, piece⟩, hsegment⟩ := Option.isSome_iff_exists.1
      (hused.resolve_left (by simp [Packet.isMarked_of_arqHeader? hset hunmarked hmessage]))
    have hchannel : channel = dest := hleads.channel_eq hmessage hother hsegment
    exact List.ne_nil_of_mem (List.mem_filterMap.2
      ⟨_, List.mem_filterMap.2 ⟨message, hmessage, hsegment⟩, if_pos hchannel⟩)
  obtain ⟨⟨fragment, segment⟩, rest, hpieces⟩ := List.exists_cons_of_ne_nil hpieces
  -- The station holds bits of a new datagram, which the first segment does not continue.
  obtain ⟨d, hd⟩ := Datagram.exists_not_mem
    (((fragment, segment) :: rest).map fun piece => piece.2.datagram)
  obtain ⟨k, hfits, hoffset⟩ : ∃ k, Word.fits k = true ∧ k ≠ segment.offset := by
    by_cases hzero : segment.offset = 0
    · exact ⟨1, rfl, by omega⟩
    · exact ⟨0, rfl, Ne.symm hzero⟩
  obtain ⟨after, y, hy, hconfig, hheld⟩ := exists_receive_opening (x := x) hset hown hleads.station
    hne (⟨d, k⟩ : Partial) hfits 0 p
  refine ⟨⟨.opening t.packet.origin dest ⟨d, k⟩, 0⟩,
    Packet.isComposed_beside _ hleads.station _, ?_⟩
  rw [hy, ← hconfig]
  have hhears : after.hears t.packet = true := by
    rw [SlotMac.hears, hset, hconfig]
    simpa using hown
  refine isDisturbed_unmarked ht hsound hleads (hconfig ▸ hne) hhears hshared hunmarked hheld
    hpieces hoffset ?_ p
  exact fun piece hpiece hsame => hd (List.mem_map.2 ⟨piece, hpiece, hsame⟩)

theorem exists_isDisturbed (config : StationConfig) (ht : t.packet.IsComposed)
    (hsound : t.packet.IsSound) (hover : t.packet.isOverheard config.mac.id = true) :
    ∃ calls, (∀ u, .receive u ∈ calls → u.packet.IsComposed) ∧
      IsDisturbed config.mac.id t ((made config).run calls) := by
  cases harq : t.packet.arqHeader? with
  | some header =>
    obtain ⟨⟨hset, hown⟩, hshared, message, hmessage, hother, -⟩ := Packet.isOverheard_iff.1 hover
    obtain ⟨dest, hleads⟩ := ht.exists_leadsTo
    refine ⟨[], fun _ h => absurd h List.not_mem_nil, ?_⟩
    refine isDisturbed_marked ht hleads (hleads.ne_of_isForOther hmessage hother) ?_ hshared harq
      rfl _
    rw [SlotMac.hears, hset]
    simpa using hown
  | none =>
    obtain ⟨u, hu, hdisturbed⟩ := (isWhole_made config).exists_isDisturbed ht hsound hover harq
    refine ⟨[.receive u], fun v hv => ?_, hdisturbed⟩
    cases List.mem_singleton.1 hv
    exact hu

/-- **Other stations' traffic.** Take any valid configuration and any packet that was put together.
If the station does not overhear the packet, it keeps out of it, in all states in which its layers
are in their seats, and these are all that it can get into. If it does overhear the packet, there is
a run after which the messages for others change its links, or what its RLC has. -/
theorem keepsOut_unless_isOverheard {config : StationConfig} {s : Station}
    (hs : ofConfig config = .ok s) (ht : t.packet.IsComposed) :
    (∀ calls, (s.run calls).IsWhole config.mac.id) ∧
      (t.packet.isOverheard config.mac.id = false →
        ∀ u : Station, u.IsWhole config.mac.id → KeepsOut config.mac.id t u) ∧
      (t.packet.isOverheard config.mac.id = true → t.packet.IsSound →
        ∃ calls, (∀ u, .receive u ∈ calls → u.packet.IsComposed) ∧
          IsDisturbed config.mac.id t (s.run calls)) := by
  obtain ⟨-, -, rfl⟩ := ofConfig_eq_ok_iff.1 hs
  exact ⟨fun calls => (isWhole_made config).run calls, fun hover u hu => hu.keepsOut ht hover,
    fun hover hsound => exists_isDisturbed config ht hsound hover⟩

/-! ### A third station -/

/-- The configuration of station 2. -/
def ofSecond : StationConfig :=
  { (default : StationConfig) with mac := { (default : MacConfig) with id := ⟨2⟩ } }

/-- The first frame for station 3. -/
def toThird : UnicastHeader :=
  { (default : UnicastHeader) with dest := ⟨3⟩, useArq := true, seq := .first, fragment := .whole }

/-- A whole datagram of one byte. -/
def oneByte : Payload := .segment ⟨⟨#[7]⟩, 0, 8⟩

/-- The frame by itself. -/
def alone : Packet :=
  .ofMessages [⟨some (.base (.ofSource ⟨1⟩)), none⟩, ⟨some (.unicast toThird), some oneByte⟩]

/-- The frame beside a broadcast. -/
def besideBroadcast : Packet := .beside ⟨1⟩ toThird (some oneByte)

/-- What station 2 does not overhear goes by it in any state; what it does overhear gets to it. -/
theorem keepsOut_alone :
    (∀ u : Station, u.IsWhole ⟨2⟩ → KeepsOut ⟨2⟩ ⟨alone, 0⟩ u) ∧
      ∃ calls, (∀ u, .receive u ∈ calls → u.packet.IsComposed) ∧
        IsDisturbed ⟨2⟩ ⟨besideBroadcast, 0⟩ ((made ofSecond).run calls) := by
  have hmade : ofConfig ofSecond = .ok (made ofSecond) := rfl
  have halone : alone.IsComposed := (Packet.IsComposed.empty []).addAll alone.messages rfl
  have hbeside : besideBroadcast.IsComposed := Packet.isComposed_beside ⟨1⟩ rfl _
  refine ⟨(keepsOut_unless_isOverheard (t := ⟨alone, 0⟩) hmade halone).2.1 rfl,
    (keepsOut_unless_isOverheard (t := ⟨besideBroadcast, 0⟩) hmade hbeside).2.2 rfl ?_⟩
  intro s hs
  cases List.mem_singleton.1 hs
  decide

/-- Station 2 hands up the datagram that is for station 3, takes its number for one of its own link,
and waits for the next one. -/
theorem not_keepsOut_besideBroadcast :
    ¬ (∀ t : Transmission, t.packet.IsComposed → t.packet.origin ≠ ⟨2⟩ →
        KeepsOut ⟨2⟩ t (made ofSecond)) ∧
      (receive ⟨besideBroadcast, 0⟩ (made ofSecond)).2.collect.1 = [(⟨1⟩, ⟨#[7]⟩)] ∧
      ((made ofSecond).link ⟨1⟩).nextExpected = .first ∧
      ((receive ⟨besideBroadcast, 0⟩ (made ofSecond)).2.link ⟨1⟩).nextExpected =
        SequenceNumber.first.next := by
  refine ⟨fun h => ?_, by decide +kernel, by decide +kernel, by decide +kernel⟩
  have hkeeps := congrArg (fun answer => answer.2.collect.1) (h ⟨besideBroadcast, 0⟩
    (Packet.isComposed_beside ⟨1⟩ rfl _) (by decide))
  revert hkeeps
  decide +kernel

end Station

end DataLink
