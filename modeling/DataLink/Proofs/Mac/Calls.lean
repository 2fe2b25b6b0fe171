import DataLink.Mac
import DataLink.Proofs.Call

/-!
# What the calls of the MAC keep

The slotted MAC changes its own state and asks its neighbors, and most of what it does is about
neither its configuration nor who takes turns. A property that survives every such step is
*undisturbed* (`SlotMac.Undisturbed`), and every call of the MAC keeps it. Only where a link is set
up or torn down there is more to show: what becomes of the property when the list of links changes.

A property may also be about the links that are still to be set up. It is *steady*
(`SlotMac.Steady`) if it survives every step that leaves those and the slot alone too, and then there
is more to show where a slot begins and where links are asked for. If it is about the neighbors as
well, it is *calm* (`SlotMac.Calm`), and then there is more to show where a packet is taken down and
where silent neighbors are forgotten.
-/

namespace DataLink

variable {ε α : Type} [ArqAbove ε] [PhyBelow ε]

/-- What the MAC asks of its neighbors. -/
inductive MacAsks : {α : Type} → Call ε α → Prop
  | request (bits : Nat) (dest : Address) : MacAsks (ArqAbove.request bits dest)
  | receive (packet : Packet) : MacAsks (ArqAbove.receive packet)
  | inject (packet : Packet) : MacAsks (ArqAbove.inject packet)
  | linkUp (id : Address) : MacAsks (ArqAbove.linkUp id)
  | linkDown (id : Address) : MacAsks (ArqAbove.linkDown id)
  | hasMore (dest : Address) : MacAsks (ArqAbove.hasMore dest)
  | tick (slots : Nat) : MacAsks (ArqAbove.tick slots)
  | hops : MacAsks ArqAbove.hops
  | report (id : Address) (count : Nat) : MacAsks (ArqAbove.report id count)
  | transmit (packet : Packet) (frequency : Nat) : MacAsks (PhyBelow.transmit packet frequency)
  | datarate : MacAsks PhyBelow.datarate

namespace SlotMac

/-- The change is about neither the configuration, nor the slot, nor who takes turns, nor which links
there are, nor which ones are to be set up. -/
structure LeavesLinks (m after : SlotMac) : Prop where
  config : after.config = m.config
  slot : after.slot = m.slot
  schedule : after.schedule.Perm m.schedule
  links : after.links = m.links
  pending : after.pending = m.pending
  awaiting : after.awaiting = m.awaiting

/-- The change is not about the neighbors either. -/
structure LeavesHeard (m after : SlotMac) : Prop extends LeavesLinks m after where
  neighbors : after.neighbors = m.neighbors

/-- A property that survives what the neighbors do, and any change of the MAC that leaves alone the
slot, its links, those that are to be set up included, and what it heard. -/
structure Calm (I : Inside SlotMac ε → Prop) : Prop where
  change : ∀ {s : Inside SlotMac ε} {m : SlotMac}, s.layer.LeavesHeard m → I s →
    I { s with layer := m }
  outward : ∀ {α : Type} {step : Call ε α}, MacAsks step →
    (Call.outward step : Call (Inside SlotMac ε) α).Preserves I

/-- A property that survives what the neighbors do, and any change of the MAC that leaves alone the
slot and its links, those that are to be set up included. -/
structure Steady (I : Inside SlotMac ε → Prop) : Prop where
  change : ∀ {s : Inside SlotMac ε} {m : SlotMac}, s.layer.LeavesLinks m → I s →
    I { s with layer := m }
  outward : ∀ {α : Type} {step : Call ε α}, MacAsks step →
    (Call.outward step : Call (Inside SlotMac ε) α).Preserves I

/-- A property that survives what the neighbors do, and any change of the MAC that leaves alone how
it is configured, who takes turns, and which links there are. -/
structure Undisturbed (I : Inside SlotMac ε → Prop) : Prop where
  change : ∀ {s : Inside SlotMac ε} {m : SlotMac}, m.config = s.layer.config →
    m.schedule.Perm s.layer.schedule → m.links = s.layer.links → I s → I { s with layer := m }
  outward : ∀ {α : Type} {step : Call ε α}, MacAsks step →
    (Call.outward step : Call (Inside SlotMac ε) α).Preserves I

theorem Steady.calm {I : Inside SlotMac ε → Prop} (h : Steady I) : Calm I :=
  ⟨fun hm => h.change hm.toLeavesLinks, h.outward⟩

theorem Undisturbed.steady {I : Inside SlotMac ε → Prop} (h : Undisturbed I) : Steady I :=
  ⟨fun hm => h.change hm.config hm.schedule hm.links, h.outward⟩

/-! ## The parts of a slot -/

omit [PhyBelow ε] in
/-- What the MAC does in a slot before it sends anything. -/
def getReady : Call (Inside SlotMac ε) Unit := do
  Call.change fun m => { m with slot := m.slot + 1 }
  Call.outward (ArqAbove.tick 1)
  Call.change forgetSilent
  requestLinks

/-- What the MAC sends in a slot: a beacon, or a packet for whoever has the turn. -/
def useSlot : Call (Inside SlotMac ε) Unit := do
  if (← Call.own).isBeaconDue then sendBeacon
  else match ← nextDestination with
    | some dest => serve dest
    | none => return

theorem update_eq : (update : Call (Inside SlotMac ε) Unit) = getReady >>= fun _ => useSlot := by
  simp only [getReady, bind_assoc]
  rfl

namespace Calm

variable {I : Inside SlotMac ε → Prop} (h : Calm I)

include h

theorem changes {f : SlotMac → SlotMac} (hf : ∀ m : SlotMac, m.LeavesHeard (f m)) :
    (Call.change f).Preserves I :=
  .change fun s hs => h.change (hf s.layer) hs

omit [ArqAbove ε] [PhyBelow ε] h in
theorem ofLayer (r : Except LayerError α) :
    (Call.ofLayer r : Call (Inside SlotMac ε) α).Preserves I :=
  .ofLayer fun _ _ => trivial

theorem passDown (packet : Packet) (frequency : Nat) :
    (SlotMac.passDown packet frequency : Call (Inside SlotMac ε) Unit).Preserves I :=
  .bind (h.changes fun _ => ⟨⟨rfl, rfl, .refl _, rfl, rfl, rfl⟩, rfl⟩) fun _ _ => h.outward (.transmit _ _)

theorem sendBeacon : (SlotMac.sendBeacon : Call (Inside SlotMac ε) Unit).Preserves I := by
  refine .bind (.attempt (h.outward .hops)) fun result _ => ?_
  have hrest : ∀ hops : HopCount, (do
      Call.change fun m => { m with isOdd := !m.isOdd }
      let m ← Call.own
      let packet ← Call.ofLayer (m.control (.beacon ⟨m.position, m.isOdd, hops, m.quality⟩))
      SlotMac.passDown packet m.config.frequency : Call (Inside SlotMac ε) Unit).Preserves I := by
    intro hops
    refine .bind (h.changes fun _ => ⟨⟨rfl, rfl, .refl _, rfl, rfl, rfl⟩, rfl⟩) fun _ _ => ?_
    exact .bind .look fun m _ => .bind (ofLayer _) fun packet _ => h.passDown _ _
  split
  · exact .bind (Q := fun _ => True) (.pure trivial) fun hops _ => hrest hops
  · exact .bind (Q := fun _ => True) (.pure trivial) fun hops _ => hrest hops
  · exact .bind (Q := fun _ => True) (.fail _) fun hops _ => hrest hops

/-- The schedule turns, and nobody drops out. -/
theorem turnSchedule (count : Nat) :
    (SlotMac.turnSchedule count : Call (Inside SlotMac ε) (Option Address)).Preserves I := by
  induction count with
  | zero => exact .pure trivial
  | succ count ih =>
    intro s hs
    rw [SlotMac.turnSchedule, Call.bind_apply, Call.own_apply]
    simp only
    cases hschedule : s.layer.schedule with
    | nil => exact ⟨hs, fun _ _ => trivial⟩
    | cons dest rest =>
      have hturned : I { s with layer := { s.layer with schedule := rest ++ [dest] } } := by
        refine h.change ⟨⟨rfl, rfl, ?_, rfl, rfl, rfl⟩, rfl⟩ hs
        rw [hschedule]
        exact List.perm_append_singleton dest rest
      exact Call.Keeps.bind (h.outward (.hasMore dest)) (fun more _ => .ite (.pure trivial) ih) _
        hturned

theorem serve (dest : Address) :
    (SlotMac.serve dest : Call (Inside SlotMac ε) Unit).Preserves I := by
  refine .bind (h.outward .datarate) fun bits _ => ?_
  refine .bind (h.outward (.request _ _)) fun packet _ => ?_
  refine .ite (.pure trivial) ?_
  exact .bind .look fun m _ => h.passDown _ _

theorem useSlot : (SlotMac.useSlot : Call (Inside SlotMac ε) Unit).Preserves I := by
  refine .bind .look fun m _ => .ite h.sendBeacon ?_
  refine .bind (.bind .look fun _ _ => h.turnSchedule _) fun next _ => ?_
  cases next with
  | none => exact .pure trivial
  | some dest => exact h.serve dest

/-! ## Asking for links -/

/-- Asking stations keeps what is kept when one of them is noted as asked. -/
theorem askEach (hasked : ∀ dest, (Call.change fun m : SlotMac =>
      { m with awaiting := m.awaiting.insert dest m.slot } :
        Call (Inside SlotMac ε) Unit).Preserves I) (dests : List Address) :
    (SlotMac.askEach dests : Call (Inside SlotMac ε) Unit).Preserves I := by
  induction dests with
  | nil => exact .pure trivial
  | cons dest rest ih =>
    refine .bind .look fun m _ => .bind (ofLayer _) fun packet _ => ?_
    exact .bind (h.outward (.inject _)) fun _ _ => .bind (hasked dest) fun _ _ => ih

theorem requestLinks
    (hrenewed : (Call.change SlotMac.renewOverdue : Call (Inside SlotMac ε) Unit).Preserves I)
    (hbegun : (Call.change fun m : SlotMac => { m with pending := [] } :
      Call (Inside SlotMac ε) Unit).Preserves I)
    (hasked : ∀ dest, (Call.change fun m : SlotMac =>
      { m with awaiting := m.awaiting.insert dest m.slot } :
        Call (Inside SlotMac ε) Unit).Preserves I) :
    (SlotMac.requestLinks : Call (Inside SlotMac ε) Unit).Preserves I := by
  refine .bind hrenewed fun _ _ => .bind .look fun m _ => ?_
  exact .bind hbegun fun _ _ => h.askEach hasked _

/-! ## Setting links up and tearing them down -/

/-- Setting a link up keeps what is kept when its peer is asked no more, be the link new or not. -/
theorem establishLink {id : Address}
    (hold : ∀ s, I s → I { s with layer := { s.layer with
      pending := s.layer.pending.filter fun dest => dest ≠ id
      awaiting := s.layer.awaiting.erase id } })
    (hnew : ∀ s, I s → s.layer.hasLink id = false → I { s with layer := { s.layer with
      pending := s.layer.pending.filter fun dest => dest ≠ id
      awaiting := s.layer.awaiting.erase id
      links := s.layer.links ++ [id]
      schedule := s.layer.schedule ++ [id] } }) :
    (SlotMac.establishLink id : Call (Inside SlotMac ε) Unit).Preserves I := by
  intro s hs
  unfold SlotMac.establishLink
  simp only [Call.bind_apply, Call.change_apply, Call.own_apply]
  split
  · exact ⟨hold s hs, fun _ _ => trivial⟩
  · next hlink => exact h.outward (.linkUp id) _ (hnew s hs (Bool.not_eq_true _ ▸ hlink))

theorem onLinkRequest {origin : Address}
    (hlink : (SlotMac.establishLink origin : Call (Inside SlotMac ε) Unit).Preserves I) :
    (SlotMac.onLinkRequest origin : Call (Inside SlotMac ε) Unit).Preserves I :=
  .bind hlink fun _ _ => .bind .look fun _ _ => .bind (ofLayer _) fun _ _ =>
    h.outward (.inject _)

theorem removeLink {id : Address} (hgone : ∀ s, I s → s.layer.hasLink id = true →
      I { s with layer := { s.layer with
        links := s.layer.links.filter fun peer => peer ≠ id
        schedule := s.layer.schedule.filter fun dest => dest ≠ id } }) :
    (SlotMac.removeLink id : Call (Inside SlotMac ε) Unit).Preserves I := by
  intro s hs
  unfold SlotMac.removeLink
  rw [Call.bind_apply, Call.own_apply]
  simp only
  split
  · next hlink => exact h.outward (.linkDown id) _ (hgone s hs hlink)
  · exact ⟨hs, fun _ _ => trivial⟩

end Calm

namespace Steady

variable {I : Inside SlotMac ε → Prop} (h : Steady I)

include h

theorem changes {f : SlotMac → SlotMac} (hf : ∀ m : SlotMac, m.LeavesLinks (f m)) :
    (Call.change f).Preserves I :=
  .change fun s hs => h.change (hf s.layer) hs

theorem onBeacon (origin : Address) (beacon : BeaconHeader) :
    (SlotMac.onBeacon origin beacon : Call (Inside SlotMac ε) Unit).Preserves I := by
  refine .bind (h.changes fun _ => ⟨rfl, rfl, .refl _, rfl, rfl, rfl⟩) fun _ _ => ?_
  refine .bind (.attempt (h.outward (.report _ _))) fun result _ => ?_
  split
  · exact .pure trivial
  · exact .pure trivial
  · exact .fail _

theorem forgetSilent : (Call.change SlotMac.forgetSilent : Call (Inside SlotMac ε) Unit).Preserves I := by
  refine h.changes fun m => ?_
  simp only [SlotMac.forgetSilent]
  split <;> exact ⟨rfl, rfl, .refl _, rfl, rfl, rfl⟩

/-- Getting ready for a slot keeps the property, if the beginning of the slot and asking for links do. -/
theorem getReady
    (hslot : ∀ s, I s → I { s with layer := { s.layer with slot := s.layer.slot + 1 } })
    (hrequest : (SlotMac.requestLinks : Call (Inside SlotMac ε) Unit).Preserves I) :
    (SlotMac.getReady : Call (Inside SlotMac ε) Unit).Preserves I := by
  refine .bind (.change hslot) fun _ _ => .bind (h.outward (.tick 1)) fun _ _ => ?_
  exact .bind h.forgetSilent fun _ _ => hrequest

theorem update
    (hslot : ∀ s, I s → I { s with layer := { s.layer with slot := s.layer.slot + 1 } })
    (hrequest : (SlotMac.requestLinks : Call (Inside SlotMac ε) Unit).Preserves I) :
    (SlotMac.update : Call (Inside SlotMac ε) Unit).Preserves I := by
  rw [update_eq]
  exact .bind (h.getReady hslot hrequest) fun _ _ => h.calm.useSlot

end Steady

/-! ## Receiving -/

omit [PhyBelow ε]

/-- The MAC takes notice of the packet: it has a sender, and that is not this station. -/
def hears (m : SlotMac) (packet : Packet) : Bool :=
  packet.origin.isSet && packet.origin != m.config.id

/-- What the MAC takes down of a packet that it hears: when its sender was heard, and its beacon. -/
def takeDown (packet : Packet) : Call (Inside SlotMac ε) Unit := do
  let id := (← Call.own).config.id
  Call.change fun m => { m with neighbors := (m.neighbors.markSeen packet.origin m.slot).1 }
  if let some beacon := (summarize id packet).beacon then onBeacon packet.origin beacon

/-- What the MAC does about links when it hears a packet. -/
def answer (id : Address) (packet : Packet) : Call (Inside SlotMac ε) Unit := do
  (if (summarize id packet).isRequest then onLinkRequest packet.origin else pure ())
  (if (summarize id packet).isReply then establishLink packet.origin else pure ())

theorem answer_eq_pure {id : Address} {packet : Packet}
    (h : ((summarize id packet).isRequest || (summarize id packet).isReply) = false) :
    (answer id packet : Call (Inside SlotMac ε) Unit) = pure () := by
  rw [Bool.or_eq_false_iff] at h
  simp [answer, h]

/-- A packet that is heard is taken down, answered, and handed up if it is for this station. -/
theorem receive_eq (packet : Packet) (s : Inside SlotMac ε) :
    receive packet s =
      if s.layer.hears packet then
        (do
          takeDown packet
          answer s.layer.config.id packet
          if packet.dest.isSymbolic || packet.dest == s.layer.config.id then
            Call.outward (ArqAbove.receive packet) : Call (Inside SlotMac ε) Unit) s
      else (.ok (), s) := by
  have hcond : (!packet.origin.isSet || packet.origin == s.layer.config.id) =
      !s.layer.hears packet := by
    rw [hears, Bool.not_and, bne, Bool.not_not]
  unfold receive takeDown answer
  rw [Call.bind_apply, Call.own_apply]
  simp only [hcond]
  cases s.layer.hears packet with
  | false => rfl
  | true =>
    simp only [Bool.not_true, Bool.false_eq_true, if_false, if_true, bind_assoc]
    rw [Call.bind_apply, Call.bind_apply, Call.change_apply, Call.own_apply]
    simp only
    rw [Call.bind_apply, Call.change_apply]
    simp only
    cases (summarize s.layer.config.id packet).beacon <;>
      cases (summarize s.layer.config.id packet).isRequest <;>
      cases (summarize s.layer.config.id packet).isReply <;>
      simp only [Bool.false_eq_true, if_false, if_true, pure_bind]

namespace Calm

variable [PhyBelow ε] {I : Inside SlotMac ε → Prop} (h : Calm I)

include h

theorem answer {packet : Packet}
    (hlink : (SlotMac.establishLink packet.origin : Call (Inside SlotMac ε) Unit).Preserves I)
    (id : Address) : (SlotMac.answer id packet : Call (Inside SlotMac ε) Unit).Preserves I :=
  .bind (.ite (h.onLinkRequest hlink) (.pure trivial)) fun _ _ => .ite hlink (.pure trivial)

theorem handsUp (packet : Packet) (c : Prop) [Decidable c] :
    (if c then Call.outward (ArqAbove.receive packet) else pure () :
      Call (Inside SlotMac ε) Unit).Preserves I :=
  .ite (h.outward (.receive packet)) (.pure trivial)

end Calm

namespace Steady

variable [PhyBelow ε] {I : Inside SlotMac ε → Prop} (h : Steady I)

include h

theorem takeDown (packet : Packet) :
    (SlotMac.takeDown packet : Call (Inside SlotMac ε) Unit).Preserves I := by
  refine .bind .look fun m _ => ?_
  refine .bind (h.changes fun _ => ⟨rfl, rfl, .refl _, rfl, rfl, rfl⟩) fun _ _ => ?_
  cases (summarize m.config.id packet).beacon with
  | none => exact .pure trivial
  | some beacon => exact h.onBeacon packet.origin beacon

theorem receive {packet : Packet}
    (hlink : (SlotMac.establishLink packet.origin : Call (Inside SlotMac ε) Unit).Preserves I) :
    (SlotMac.receive packet : Call (Inside SlotMac ε) Unit).Preserves I := by
  intro s hs
  rw [receive_eq]
  split
  · exact Call.Keeps.bind (h.takeDown packet)
      (fun _ _ => .bind (h.calm.answer hlink _) fun _ _ => h.calm.handsUp packet _) s hs
  · exact ⟨hs, fun _ _ => trivial⟩

/-- A packet that neither asks for a link nor grants one is not answered. -/
theorem receive_silent {packet : Packet} {s : Inside SlotMac ε}
    (hsilent : ((summarize s.layer.config.id packet).isRequest ||
      (summarize s.layer.config.id packet).isReply) = false) (hs : I s) :
    I (SlotMac.receive packet s).2 := by
  rw [receive_eq, answer_eq_pure hsilent, pure_bind]
  split
  · exact Call.Keeps.afterBind (h.takeDown packet s hs).1 fun _ => h.calm.handsUp packet _
  · exact hs

end Steady

/-! ## Properties that are not about the links to be set up -/

namespace Undisturbed

variable [PhyBelow ε] {I : Inside SlotMac ε → Prop} (h : Undisturbed I)

include h

theorem changes {f : SlotMac → SlotMac} (hconfig : ∀ m, (f m).config = m.config)
    (hschedule : ∀ m, (f m).schedule = m.schedule) (hlinks : ∀ m, (f m).links = m.links) :
    (Call.change f).Preserves I :=
  .change fun s hs => h.change (hconfig s.layer) (.of_eq (hschedule s.layer)) (hlinks s.layer) hs

theorem requestLinks : (SlotMac.requestLinks : Call (Inside SlotMac ε) Unit).Preserves I :=
  h.steady.calm.requestLinks (h.changes (fun _ => rfl) (fun _ => rfl) fun _ => rfl)
    (h.changes (fun _ => rfl) (fun _ => rfl) fun _ => rfl)
    fun _ => h.changes (fun _ => rfl) (fun _ => rfl) fun _ => rfl

theorem update : (SlotMac.update : Call (Inside SlotMac ε) Unit).Preserves I :=
  h.steady.update (fun _ hs => h.change rfl (.refl _) rfl hs) h.requestLinks

/-- Setting a link up keeps what a new link keeps. -/
theorem establishLink {id : Address} (hnew : ∀ s, I s → s.layer.hasLink id = false →
      I { s with layer := { s.layer with
        links := s.layer.links ++ [id], schedule := s.layer.schedule ++ [id] } }) :
    (SlotMac.establishLink id : Call (Inside SlotMac ε) Unit).Preserves I :=
  h.steady.calm.establishLink (fun _ hs => h.change rfl (.refl _) rfl hs) fun s hs hlink =>
    h.change (s := { s with layer := { s.layer with
      links := s.layer.links ++ [id], schedule := s.layer.schedule ++ [id] } })
      rfl (.refl _) rfl (hnew s hs hlink)

end Undisturbed

end SlotMac

end DataLink
