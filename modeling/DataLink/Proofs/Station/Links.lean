import DataLink.Proofs.Station.Sending

/-!
# What the layers of a station agree on

The MAC of a station keeps the links that are set up and who takes turns, and the ARQ keeps what was
sent and received on every link. They are told of each other's doings, but the ARQ also starts a link
by itself when a frame arrives, and a call may fail after a part of it is done.

In all of this three things stay true (`Station.InOrder`): the ARQ knows every link of the MAC, only the
broadcast channel and links take turns, and the layers above the MAC are in order. Each move keeps them.

**Theorem (`Station.links_agree`).** In every state of a run, the ARQ knows the links of the MAC. So a
link can be torn down if and only if the MAC has it, and then neither of them has it any more.

**Theorem (`Station.unicast_waits_for_link`).** What a station transmits for another one sets up a link
with it, or there is a link to it. Whoever is served has a turn, and what is built for it suits it: on
the broadcast channel only what sets up links may name a station.
-/

namespace DataLink

open Upper (Move Moves)

/-! ## Packets -/

namespace Packet

variable {p : Packet} {dest : Address}

theorem Suits.names (hsuits : p.Suits dest) (source : Address) {h : Header}
    (hmem : h ∈ (p.sign source).headers) (hfamily : h.frameType.isUnicastFamily = true) :
    h.frameType = .linkRequest ∨ h.frameType = .linkReply ∨
      h.frameType = .unicast ∧ h.dest? = some dest ∧ p.IsFrameFor dest := by
  have htype : h.frameType ∈ p.shape := by
    rw [← shape_sign source p]
    exact List.mem_map_of_mem hmem
  have hnamed : ∀ u, h.unicast? = some u → u ∈ p.unicastHeaders := by
    intro u hu
    rw [← unicastHeaders_sign source p]
    exact List.mem_filterMap.2 ⟨h, hmem, hu⟩
  rcases hsuits with hcontrol | hframe | heverybody
  · rcases hcontrol.types _ htype with hbase | hrequest | hreply
    · rw [hbase] at hfamily
      cases hfamily
    · exact Or.inl hrequest
    · exact Or.inr (Or.inl hreply)
  · refine Or.inr (Or.inr ?_)
    rcases hframe.types _ htype with hbase | hunicast
    · rw [hbase] at hfamily
      cases hfamily
    · refine ⟨hunicast, ?_, hframe⟩
      cases h with
      | unicast u => exact congrArg some (hframe.named u (hnamed u rfl))
      | _ => cases hunicast
  · rcases heverybody _ htype with hbase | hbroadcast
    · rw [hbase] at hfamily
      cases hfamily
    · rw [hbroadcast] at hfamily
      cases hfamily

end Packet

/-! ## The layers above the MAC -/

theorem SelectiveRepeat.contains_setLink {a : SelectiveRepeat} {id : Address}
    (h : a.links.contains id = true) (dest : Address) (l : Link) :
    (a.setLink dest l).links.contains id = true := by
  rw [Table.contains, get?_setLink]
  split
  · rfl
  · exact h

namespace Upper

variable {x : Upper} {bits : Nat} {dest : Address}

theorem request_arq (x : Upper) (bits : Nat) (dest : Address) :
    (x.request bits dest).2.arq = x.arq ∨
      ∃ l, (x.request bits dest).2.arq = x.arq.setLink dest l := by
  unfold request
  split
  · split
    · exact Or.inl rfl
    · next packet arq hres =>
      obtain ⟨l, -, rfl⟩ := SelectiveRepeat.resend_eq_some_iff.1 hres
      exact Or.inr ⟨l, rfl⟩
    · split
      · exact Or.inl rfl
      · split
        · exact Or.inl rfl
        · next out arq hseq =>
          unfold SelectiveRepeat.sequence at hseq
          split at hseq
          · rcases SelectiveRepeat.acknowledge_eq_ok hseq with ⟨-, rfl⟩ | ⟨header, -, -, rfl⟩
            · exact Or.inr ⟨_, rfl⟩
            · exact Or.inr ⟨_, rfl⟩
          · cases hseq
            exact Or.inr ⟨_, rfl⟩
  · exact Or.inl rfl

theorem config_request (x : Upper) (bits : Nat) (dest : Address) :
    (x.request bits dest).2.arq.config = x.arq.config := by
  rcases request_arq x bits dest with h | ⟨l, h⟩ <;> rw [h]
  rfl

theorem contains_request {id : Address} (h : x.arq.links.contains id = true) (bits : Nat)
    (dest : Address) : (x.request bits dest).2.arq.links.contains id = true := by
  rcases request_arq x bits dest with hreq | ⟨l, hreq⟩ <;> rw [hreq]
  · exact h
  · exact SelectiveRepeat.contains_setLink h dest l

/-- Only what the links hold, and whether frames are protected, matters of the ARQ. -/
theorem IsOrderly.setArq (h : x.IsOrderly) {arq : SelectiveRepeat} (hconfig : arq.config = x.arq.config)
    (hlink : ∀ id, arq.link id = x.arq.link id ∨ arq.link id = .fresh) :
    IsOrderly { x with arq } := by
  have hprotected : ∀ id, arq.isProtected id = x.arq.isProtected id := by
    intro id
    rw [SelectiveRepeat.isProtected, hconfig, SelectiveRepeat.isProtected]
  refine ⟨h.rlc, hconfig ▸ h.window, fun id => ?_, fun id => ?_⟩
  · intro f hf
    rcases hlink id with heq | heq
    · obtain ⟨hp, hframe, hsized⟩ := h.holds id f (heq ▸ hf)
      exact ⟨(hprotected id).trans hp, hframe, hsized⟩
    · rw [show (Upper.mk x.net x.rlc arq).arq.link id = _ from heq] at hf
      cases hf
  · show (arq.link id).AsksHeld
    rcases hlink id with heq | heq
    · rw [heq]
      exact h.asks id
    · intro seq hseq
      rw [heq] at hseq
      cases hseq

theorem IsOrderly.takeIn (h : x.IsOrderly) (origin : Address) (header : UnicastHeader)
    (packet : Packet) : IsOrderly { x with arq := (x.arq.takeIn origin header packet).2 } := by
  rw [SelectiveRepeat.takeIn_apply]
  exact h.setLink ((h.holds origin).takeIn header packet _)
    (Link.asksHeld_takeIn _ header packet _)

theorem IsOrderly.eraseLink (h : x.IsOrderly) (id : Address) :
    IsOrderly { x with arq := { x.arq with links := x.arq.links.erase id } } := by
  refine h.setArq rfl fun other => ?_
  rw [SelectiveRepeat.link_erase]
  split
  · exact Or.inr rfl
  · exact Or.inl rfl

end Upper

/-! ## The MAC -/

theorem SlotMac.Sends.names {m : SlotMac} {x : Upper} {datarate : Nat} {transmitted : List Transmission}
    (hsends : Sends datarate m x transmitted) (hx : x.IsOrderly) {sent : Transmission}
    (hsent : sent ∈ transmitted) {h : Header} (hmem : h ∈ sent.packet.headers)
    (hfamily : h.frameType.isUnicastFamily = true) :
    h.frameType = .linkRequest ∨ h.frameType = .linkReply ∨
      h.frameType = .unicast ∧ h.dest? = some sent.packet.dest ∧
        sent.packet.dest.isSymbolic = false ∧ sent.packet.dest ∈ m.schedule := by
  cases hsends with
  | nothing => cases hsent
  | beacon =>
    rw [List.mem_singleton.1 hsent] at hmem
    have htype : h.frameType ∈ [FrameType.base, .beacon] :=
      shape_beacon m x.net.hops ▸ List.mem_map_of_mem hmem
    simp only [List.mem_cons, List.not_mem_nil, or_false] at htype
    rcases htype with htype | htype
    · rw [htype] at hfamily
      cases hfamily
    · rw [htype] at hfamily
      cases hfamily
  | @packet _ dest hdest packet hpacket hsize =>
    rw [List.mem_singleton.1 hsent] at hmem ⊢
    have hsuits := ((hx.request (Word.fits_iff.1 (Word.fits_clamp datarate)) dest).2 packet
      hpacket).1
    refine (hsuits.names m.config.id hmem hfamily).imp_right (Or.imp_right ?_)
    rintro ⟨hunicast, hfor, hframe⟩
    have hpeer : ((packet.sign m.config.id).announce.2).dest = dest :=
      (Packet.dest_sign m.config.id packet).trans hframe.dest_eq
    rw [hpeer]
    exact ⟨hunicast, hfor, hframe.station, hdest⟩

/-! ## The station -/

namespace Station

/-- The MAC serves nobody but the broadcast channel and its links, the ARQ knows these, and the layers
above the MAC are in order. -/
structure InOrder (config : StationConfig) (s : Inside SlotMac Upper) : Prop where
  mac : s.layer.config = config.mac
  arq : s.around.arq.config = config.arq
  turns : ∀ dest ∈ s.layer.schedule, dest = .broadcast ∨ dest ∈ s.layer.links
  known : ∀ id ∈ s.layer.links, s.around.arq.links.contains id = true
  upper : s.around.IsOrderly

variable {config : StationConfig} {s : Station}

theorem inOrder_start (hwindow : 0 < config.arq.windowSize) : InOrder config (start config) where
  mac := rfl
  arq := rfl
  turns _ hdest := Or.inl (List.mem_singleton.1 hdest)
  known := nofun
  upper := ⟨⟨nofun, nofun⟩, hwindow, fun _ => nofun, fun _ => nofun⟩

theorem InOrder.move {s t : Inside SlotMac Upper} (h : InOrder config s) (hmove : Move s t) :
    InOrder config t := by
  obtain ⟨hmac, harq, hturns, hknown, hupper⟩ := h
  cases hmove with
  | settle hconfig hschedule hlinks =>
    refine ⟨hconfig.trans hmac, harq, ?_, ?_, hupper⟩
    · intro dest hdest
      rw [hlinks]
      exact hturns dest (hschedule.mem_iff.1 hdest)
    · intro id hid
      rw [hlinks] at hid
      exact hknown id hid
  | net net =>
    exact ⟨hmac, harq, hturns, hknown, hupper.rlc, hupper.window, hupper.holds, hupper.asks⟩
  | streams streams =>
    exact ⟨hmac, harq, hturns, hknown, hupper.setRlc ⟨hupper.rlc.control, hupper.rlc.queued⟩⟩
  | enqueue datagram dest priority =>
    exact ⟨hmac, harq, hturns, hknown, hupper.setRlc (hupper.rlc.enqueue datagram dest priority)⟩
  | inject hcontrol =>
    exact ⟨hmac, harq, hturns, hknown, hupper.setRlc (hupper.rlc.inject hcontrol _)⟩
  | tick slots => exact ⟨hmac, harq, hturns, hknown, hupper.setArq rfl fun _ => Or.inl rfl⟩
  | takeIn origin header packet =>
    refine ⟨hmac, ?_, hturns, fun id hid => ?_, hupper.takeIn origin header packet⟩
    · rw [← harq, SelectiveRepeat.takeIn_apply]
      rfl
    · rw [SelectiveRepeat.takeIn_apply]
      exact SelectiveRepeat.contains_setLink (hknown id hid) _ _
  | request hbits dest =>
    exact ⟨hmac, (Upper.config_request _ _ dest).trans harq, hturns,
      fun id hid => Upper.contains_request (hknown id hid) _ dest, (hupper.request hbits dest).1⟩
  | linkUp id =>
    refine ⟨hmac, harq, fun dest hdest => ?_, fun other hother => ?_, ?_⟩
    · rcases List.mem_append.1 hdest with hdest | hdest
      · exact (hturns dest hdest).imp_right fun hlink => List.mem_append_left _ hlink
      · exact Or.inr (List.mem_append_right _ hdest)
    · rcases List.mem_append.1 hother with hother | hother
      · exact SelectiveRepeat.contains_setLink (hknown other hother) _ _
      · rw [List.mem_singleton.1 hother, Table.contains, SelectiveRepeat.linkUp,
          SelectiveRepeat.get?_setLink, if_pos rfl]
        rfl
    · exact hupper.setLink (hupper.holds id) (hupper.asks id)
  | linkDown id =>
    refine ⟨hmac, harq, fun dest hdest => ?_, fun other hother => ?_, hupper.eraseLink id⟩
    · obtain ⟨hdest, hne⟩ := List.mem_filter.1 hdest
      exact (hturns dest hdest).imp_right fun hlink => List.mem_filter.2 ⟨hlink, hne⟩
    · obtain ⟨hother, hne⟩ := List.mem_filter.1 hother
      rw [Table.contains, Table.get?_erase, if_neg (Ne.symm (of_decide_eq_true hne))]
      exact hknown other hother

theorem inOrder_run (hs : ofConfig config = .ok s) (calls : List StationCall) :
    ∃ m x p, s.run calls = Upper.station x m p ∧ p.config = config.phy ∧ m.IsTracked ∧
      InOrder config ⟨m, x⟩ := by
  obtain ⟨⟨hwindow, -⟩, -, rfl⟩ := ofConfig_eq_ok_iff.1 hs
  exact ((isReached_made config).run calls).invariant (inOrder_start hwindow) fun hmove h => h.move hmove

theorem InOrder.exists_transmits {m : SlotMac} {x : Upper} (h : InOrder config ⟨m, x⟩)
    (hm : m.IsTracked) (p : OutboxPhy) :
    ∃ ready before after y q, (x.station m p).step .update = Upper.station y after q ∧
      q.outbox = p.outbox ++ (x.station m p).transmits .update ∧ after.links = m.links ∧
      ready.slot = m.slot + 1 ∧ ready.links = m.links ∧ InOrder config ⟨ready, before⟩ ∧
      SlotMac.Sends p.config.datarate ready before ((x.station m p).transmits .update) := by
  obtain ⟨ready, before, after, y, q, hstep, hout, hreadies, huses, hsends⟩ :=
    Station.exists_transmits hm x p
  exact ⟨ready, before, after, y, q, hstep, hout, huses.links.trans hreadies.links, hreadies.slot,
    hreadies.links, hreadies.moves.keep (fun hmove h => h.move hmove) h, hsends⟩

/-! ## Links -/

/-- The MAC has a link to `id`. -/
def hasLink (id : Address) (s : Station) : Bool := s.slotMac?.any fun m => m.hasLink id

/-- The ARQ knows a link to `id`. -/
def knowsLink (id : Address) (s : Station) : Bool :=
  (s.arq.idle?.bind ArqLayer.selective?).any fun a => a.links.contains id

/-- **The MAC and the ARQ agree on links.** In every state of a run, the ARQ knows the links of the MAC.
So a link can be torn down if and only if the MAC has it, and then neither has it any more. -/
theorem links_agree (hs : ofConfig config = .ok s) (calls : List StationCall) (id : Address) :
    let t := s.run calls
    (t.hasLink id = true → t.knowsLink id = true) ∧
      ((removeLink id t).1 = .ok () ↔ t.hasLink id = true) ∧
      ((removeLink id t).1 = .ok () →
        (removeLink id t).2.hasLink id = false ∧ (removeLink id t).2.knowsLink id = false) := by
  obtain ⟨m, x, p, hrun, -, -, hinOrder⟩ := inOrder_run hs calls
  intro t
  rw [show t = _ from hrun, removeLink_apply, SlotMac.removeLink_apply]
  have hknows : m.hasLink id = true → x.arq.links.contains id = true := fun hlink =>
    hinOrder.known id (List.contains_iff_mem.1 hlink)
  change (m.hasLink id = true → x.arq.links.contains id = true) ∧ (_ ↔ m.hasLink id = true) ∧ _
  cases hlink : m.hasLink id with
  | false => exact ⟨nofun, ⟨nofun, nofun⟩, nofun⟩
  | true =>
    have hknown := hknows hlink
    refine ⟨fun _ => hknown, ?_, fun _ => ⟨?_, ?_⟩⟩
    · simp [hknown]
    · show (m.links.filter fun peer => peer ≠ id).contains id = false
      rw [SlotMac.contains_filter_ne]
      simp
    · show (x.arq.links.erase id).contains id = false
      rw [Table.contains, Table.get?_erase, if_pos rfl]
      rfl

/-- A datagram is queued for station 2, which then grants a link. -/
def granted : List StationCall :=
  [.send ⟨#[7]⟩ ⟨2⟩ 0, .receive ⟨SlotMac.heard ⟨2⟩ (.linkReply SlotMac.toFirst default), 0⟩]

theorem links_agree_granted :
    ((made ofFirst).run granted).knowsLink ⟨2⟩ = true ∧
      (removeLink ⟨2⟩ ((made ofFirst).run granted)).1 = .ok () ∧
      (removeLink ⟨2⟩ ((made ofFirst).run granted)).2.hasLink ⟨2⟩ = false ∧
      (removeLink ⟨2⟩ ((made ofFirst).run granted)).2.knowsLink ⟨2⟩ = false := by
  obtain ⟨hknows, hremoved, hgone⟩ :=
    links_agree (show ofConfig ofFirst = .ok (made ofFirst) from rfl) granted ⟨2⟩
  have hlink : ((made ofFirst).run granted).hasLink ⟨2⟩ = true := by decide +kernel
  exact ⟨hknows hlink, hremoved.2 hlink, hgone (hremoved.2 hlink)⟩

/-! ## What is transmitted for a station -/

/-- **Data waits for its link.** Of all that a station transmits, only what sets up links is for a
station that the MAC has no link to. -/
theorem unicast_waits_for_link (hs : ofConfig config = .ok s) (calls : List StationCall)
    (call : StationCall) :
    let t := s.run calls
    ∀ sent ∈ t.transmits call, ∀ h ∈ sent.packet.headers, h.frameType.isUnicastFamily = true →
      h.frameType = .linkRequest ∨ h.frameType = .linkReply ∨
        h.frameType = .unicast ∧ h.dest? = some sent.packet.dest ∧
          sent.packet.dest.isSymbolic = false ∧ t.hasLink sent.packet.dest = true ∧
          (t.step call).hasLink sent.packet.dest = true := by
  obtain ⟨m, x, p, hrun, -, hm, hinOrder⟩ := inOrder_run hs calls
  intro t sent hsent h hmem hfamily
  rw [show t = x.station m p from hrun] at hsent ⊢
  by_cases hcall : call = .update
  · subst hcall
    obtain ⟨ready, before, after, y, q, hstep, -, hafter, -, hready, hinReady, hsends⟩ :=
      hinOrder.exists_transmits hm p
    refine (hsends.names hinReady.upper hsent hmem hfamily).imp_right (Or.imp_right ?_)
    rintro ⟨hunicast, hfor, hstation, hturn⟩
    have hlink : sent.packet.dest ∈ m.links := by
      rw [← hready]
      refine (hinReady.turns _ hturn).resolve_left fun hbroadcast => ?_
      rw [hbroadcast] at hstation
      cases hstation
    refine ⟨hunicast, hfor, hstation, List.contains_iff_mem.2 hlink, ?_⟩
    rw [hstep]
    exact List.contains_iff_mem.2 (hafter ▸ hlink)
  · rw [transmits_eq_nil hm x p hcall] at hsent
    cases hsent

theorem unicast_waits_for_link_granted :
    (((made ofFirst).run granted).transmits .update).map (fun sent => sent.packet.shape) =
        [[.base, .unicast]] ∧
      ∀ sent ∈ ((made ofFirst).run granted).transmits .update, ∀ h ∈ sent.packet.headers,
        h.frameType.isUnicastFamily = true → h.frameType = .linkRequest ∨ h.frameType = .linkReply ∨
          h.frameType = .unicast ∧ h.dest? = some sent.packet.dest ∧
            sent.packet.dest.isSymbolic = false ∧
            ((made ofFirst).run granted).hasLink sent.packet.dest = true ∧
            (((made ofFirst).run granted).step .update).hasLink sent.packet.dest = true :=
  ⟨by decide +kernel,
    unicast_waits_for_link (show ofConfig ofFirst = .ok (made ofFirst) from rfl) granted .update⟩

end Station

end DataLink
