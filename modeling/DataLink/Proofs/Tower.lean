import DataLink.Arq.SelectiveRepeat
import DataLink.Proofs.Rlc.Packets

/-!
# Towers of layers

A layer can be studied without a station: an RLC between a network layer and whatever is told the
demand (`Ends`), and an ARQ on top of such an RLC. The layers are the ones of a station; only what
lies around them is simpler. The network layer is the one of the library, which takes every datagram
and keeps it in its inbox, and what is below is arbitrary and may refuse.
-/

namespace DataLink

variable {ε β : Type}

/-- The two ends of an RLC: the network layer above, and what is told the demand. -/
structure Ends (β : Type) where
  net : RoutingNet
  below : β

namespace Ends

/-- Ends with nothing in the inbox. -/
def empty (below : β) : Ends β := ⟨.empty false, below⟩

instance : NetAbove (Ends β) where
  receive datagram origin := modify fun e => { e with net := e.net.receive datagram origin }
  hops := return (← get).net.hops
  report id hops := modify fun e => { e with net := e.net.report id hops }

instance [ArqBelow β] : ArqBelow (Ends β) where
  notifyOutgoing bits dest := fun e =>
    match ArqBelow.notifyOutgoing bits dest e.below with
    | (r, below) => (r, { e with below })

/-- The network layer takes in datagrams that one sender sent. -/
def deliver (origin : Address) (datagrams : List Datagram) (e : Ends β) : Ends β :=
  { e with net := { e.net with inbox := e.net.inbox ++ datagrams.map fun d => (origin, d) } }

theorem receive_apply (datagram : Datagram) (origin : Address) (e : Ends β) :
    NetAbove.receive datagram origin e = (.ok (), e.deliver origin [datagram]) := rfl

end Ends

/-- An RLC with its surroundings is what an ARQ has above it. -/
instance [NetAbove ε] : RlcAbove (Inside SegmentingRlc ε) where
  request := SegmentingRlc.request
  requestBurst := SegmentingRlc.requestBurst
  receive := SegmentingRlc.receive
  inject packet priority := Call.change fun r => r.inject packet priority
  hasMore dest := return (← Call.own).hasMore dest
  hops := Call.outward NetAbove.hops
  report id hops := Call.outward (NetAbove.report id hops)

/-- Below the lowest layer of a tower there may be nobody who takes note of the demand. -/
instance : ArqBelow Unit where
  notifyOutgoing _ _ := pure ()

/-- An ARQ with its surroundings is what a MAC has above it. -/
instance [RlcAbove ε] : ArqAbove (Inside SelectiveRepeat ε) where
  request := SelectiveRepeat.request
  receive := SelectiveRepeat.receive
  inject packet := Call.outward (Arq.inject packet)
  linkUp id := Call.change fun a => a.linkUp id
  linkDown id := do
    let after ← Call.ofLayer ((← Call.own).linkDown id)
    Call.change fun _ => after
  hasMore := SelectiveRepeat.hasMore
  tick slots := Call.change fun a => a.tick slots
  hops := Call.outward RlcAbove.hops
  report id hops := Call.outward (RlcAbove.report id hops)

theorem linkDown_apply [RlcAbove ε] (id : Address) (s : Inside SelectiveRepeat ε) :
    ArqAbove.linkDown id s = match s.layer.linkDown id with
      | .ok after => (.ok (), { s with layer := after })
      | .error e => (.error (.layer e), s) := by
  simp only [ArqAbove.linkDown, Call.bind_apply, Call.own_apply]
  cases s.layer.linkDown id <;> rfl

/-! ## The RLC in a tower -/

namespace SegmentingRlc

theorem handUp_apply (origin : Address) (datagrams : List Datagram)
    (s : Inside SegmentingRlc (Ends β)) :
    handUp origin datagrams s =
      (.ok (), { s with around := s.around.deliver origin datagrams }) := by
  induction datagrams generalizing s with
  | nil => simp [handUp, Ends.deliver]
  | cons d rest ih =>
    rw [handUp, Call.bind_apply, Call.outward_apply, Ends.receive_apply]
    simp only
    rw [ih]
    simp [Ends.deliver]

theorem accept_eq [ArqBelow ε] (datagram : Datagram) (dest : Address) (priority : Nat)
    (s : Inside SegmentingRlc ε) : accept datagram dest priority s =
      if dest = .unset ∨ dest = .dme then (.error (.layer (.unknownId dest)), s)
      else if s.layer.maxQueued ≤ s.layer.numQueued dest then
        (.error (.layer (.queueFull dest)), s)
      else match ArqBelow.notifyOutgoing (Word.clamp (s.layer.queuedBits dest + datagram.bits)) dest
          s.around with
        | (.ok _, around) => (.ok (), ⟨s.layer.enqueue datagram dest priority, around⟩)
        | (.error e, around) => (.error e, ⟨s.layer, around⟩) := by
  unfold accept
  split
  · rfl
  · rw [Call.bind_apply, Call.own_apply]
    simp only
    split
    · rfl
    · rw [Call.bind_apply, Call.outward_apply]
      obtain ⟨r, around⟩ := ArqBelow.notifyOutgoing
        (Word.clamp (s.layer.queuedBits dest + datagram.bits)) dest s.around
      cases r <;> rfl

/-- A datagram is queued, or the RLC stays as it is. -/
theorem accept_cases [ArqBelow ε] (datagram : Datagram) (dest : Address) (priority : Nat)
    (s : Inside SegmentingRlc ε) :
    (∃ around, accept datagram dest priority s =
      (.ok (), ⟨s.layer.enqueue datagram dest priority, around⟩)) ∨
    ∃ e around, accept datagram dest priority s = (.error e, ⟨s.layer, around⟩) := by
  rw [accept_eq]
  split
  · exact Or.inr ⟨_, s.around, rfl⟩
  · split
    · exact Or.inr ⟨_, s.around, rfl⟩
    · split
      · next around _ => exact Or.inl ⟨around, rfl⟩
      · next e around _ => exact Or.inr ⟨e, around, rfl⟩

/-- The control packet that goes first, if there is one and the request is for the first frame. -/
def controlFor (r : SegmentingRlc) (bits : Nat) (dest : Address) (frame : Nat) :
    Except Fault (Option (Packet × SegmentingRlc)) :=
  if frame = 0 then r.popInjected bits dest else .ok none

/-- A request is answered with a control packet, or else with a packet that is filled. -/
theorem requestBurst_eq (bits : Nat) (dest : Address) (frame : Nat) (s : Inside SegmentingRlc ε) :
    requestBurst bits dest frame s =
      if bits < Width.base then (.ok .empty, s)
      else match s.layer.controlFor bits dest frame with
        | .error e => (.error e, s)
        | .ok (some (packet, layer)) => (.ok packet, { s with layer })
        | .ok none => match s.layer.fill bits dest with
          | .error e => (.error (.layer e), s)
          | .ok (packet, layer) => (.ok packet, { s with layer }) := by
  unfold requestBurst controlFor
  split
  · rfl
  · rw [Call.bind_apply, Call.own_apply]
    simp only
    split
    · rw [Call.bind_apply, Call.ofExcept_apply]
      cases s.layer.popInjected bits dest with
      | error e => rfl
      | ok control =>
        cases control with
        | some served => rfl
        | none =>
          simp only
          cases s.layer.fill bits dest <;> rfl
    · cases s.layer.fill bits dest <;> rfl

theorem requestBurst_of_lt {bits : Nat} (h : bits < Width.base) (dest : Address) (frame : Nat)
    (s : Inside SegmentingRlc ε) : requestBurst bits dest frame s = (.ok .empty, s) := by
  rw [requestBurst_eq, if_pos h]

theorem requestBurst_around (bits : Nat) (dest : Address) (frame : Nat)
    (s : Inside SegmentingRlc ε) : (requestBurst bits dest frame s).2.around = s.around := by
  rw [requestBurst_eq]
  split
  · rfl
  · cases s.layer.controlFor bits dest frame with
    | error e => rfl
    | ok control =>
      cases control with
      | some served => rfl
      | none => cases s.layer.fill bits dest <;> rfl

theorem controlFor_of_nil {r : SegmentingRlc} {dest : Address}
    (h : (r.injectedFor dest).items = []) (bits frame : Nat) :
    r.controlFor bits dest frame = .ok none := by
  simp [controlFor, popInjected, h, PriorityQueue.front?]

theorem controlFor_eq_some_iff {r : SegmentingRlc} {bits : Nat} {dest : Address} {frame : Nat}
    {served : Packet × SegmentingRlc} : r.controlFor bits dest frame = .ok (some served) ↔
      frame = 0 ∧ r.popInjected bits dest = .ok (some served) := by
  by_cases hframe : frame = 0 <;> simp [controlFor, hframe]

theorem requestBurst_apply {s : Inside SegmentingRlc ε} {bits : Nat} {dest : Address}
    (frame : Nat) (hbits : ¬ bits < Width.base)
    (hinjected : (s.layer.injectedFor dest).items = [])
    (hdest : IsCarried dest ∨ (s.layer.queue dest).items = []) :
    requestBurst bits dest frame s = (.ok (packed dest (s.layer.cutFor bits dest).1),
      { s with layer := s.layer.setQueue dest (s.layer.cutFor bits dest).2 }) := by
  have hfill : s.layer.fill bits dest = .ok (packed dest (s.layer.cutFor bits dest).1,
      s.layer.setQueue dest (s.layer.cutFor bits dest).2) := by
    rcases hdest with hdest | hdest
    · exact fill_eq hdest s.layer bits
    · rw [fill_nil hdest]
      simp [cutFor, hdest, cut]
      rfl
  simp only [requestBurst_eq, hbits, if_false, controlFor_of_nil hinjected, hfill]

/-- A packet that can be taken in is taken in whole, and what it completes is handed up. -/
theorem receive_apply (packet : Packet) (s : Inside SegmentingRlc (Ends β))
    {complete : List Datagram} {streams : Reassembly}
    (h : Reassembly.absorb packet.origin (packet.messages.filterMap Message.segment?)
      s.layer.streams = .ok (complete, streams)) :
    receive packet s = (.ok (), ⟨{ s.layer with streams },
      s.around.deliver packet.origin complete⟩) := by
  simp only [receive, Call.bind_apply, Call.own_apply, h, Call.ofExcept_apply, Call.change_apply,
    handUp_apply]

/-- The receiver of a signed packet takes in the pieces that were packed. -/
theorem receive_packed {source dest channel : Address} {pieces : List (Fragment × Segment)}
    {s : Inside SegmentingRlc (Ends β)} {complete : List Datagram} {streams : Reassembly}
    (hchannel : channelOf dest = channel)
    (h : Reassembly.absorb source (pieces.map fun p => (channel, p.1, p.2))
      s.layer.streams = .ok (complete, streams)) :
    receive ((packed dest pieces).sign source) s = (.ok (), ⟨{ s.layer with streams },
      s.around.deliver source complete⟩) := by
  rw [← hchannel, ← segmentsOf_packed, ← segmentsOf_sign source] at h
  have horigin := origin_sign_packed source dest pieces
  rw [receive_apply ((packed dest pieces).sign source) s (horigin.symm ▸ h), horigin]

/-- What the RLC builds for a station is sound, where no control packet waits. -/
theorem requestBurst_built {s : Inside SegmentingRlc ε} {dest : Address}
    (hdest : dest.isSymbolic = false) (hinjected : (s.layer.injectedFor dest).items = [])
    (bits frame : Nat) : ∃ packet queues, packet.IsBuilt ∧
      requestBurst bits dest frame s = (.ok packet, { s with layer := { s.layer with queues } }) := by
  by_cases hbits : bits < Width.base
  · have hempty : Packet.empty.IsBuilt :=
      ⟨Or.inl rfl, fun _ h => by simp [Packet.payloads, Packet.empty] at h⟩
    exact ⟨.empty, s.layer.queues, hempty, requestBurst_of_lt hbits dest frame s⟩
  · rw [requestBurst_apply frame hbits hinjected (Or.inl (Or.inr (Or.inr hdest)))]
    exact ⟨_, _, isBuilt_packed dest (cut_le_highest _ _ _), rfl⟩

theorem requestBurst_queues {s : Inside SegmentingRlc ε} {dest : Address}
    (hinjected : (s.layer.injectedFor dest).items = []) (bits frame : Nat) :
    ∃ queues, (requestBurst bits dest frame s).2 = { s with layer := { s.layer with queues } } := by
  by_cases hbits : bits < Width.base
  · exact ⟨s.layer.queues, by rw [requestBurst_of_lt hbits]⟩
  · simp only [requestBurst_eq, hbits, if_false, controlFor_of_nil hinjected]
    cases hfill : s.layer.fill bits dest with
    | error e => exact ⟨s.layer.queues, rfl⟩
    | ok filled =>
      obtain ⟨packet, after⟩ := filled
      obtain rfl := fill_eq_ok hfill
      exact ⟨_, rfl⟩

theorem handUp_layer [NetAbove ε] (origin : Address) (datagrams : List Datagram)
    (s : Inside SegmentingRlc ε) : (handUp origin datagrams s).2.layer = s.layer := by
  induction datagrams generalizing s with
  | nil => rfl
  | cons d rest ih =>
    rw [handUp, Call.bind_apply, Call.outward_apply]
    rcases NetAbove.receive d origin s.around with ⟨e | _, around⟩
    · rfl
    · exact ih _

theorem receive_layer [NetAbove ε] (packet : Packet) (s : Inside SegmentingRlc ε) :
    ∃ streams, (receive packet s).2.layer = { s.layer with streams } := by
  simp only [receive, Call.bind_apply, Call.own_apply, Call.ofExcept_apply]
  cases Reassembly.absorb packet.origin (packet.messages.filterMap Message.segment?)
    s.layer.streams with
  | error e => exact ⟨s.layer.streams, rfl⟩
  | ok found => exact ⟨found.2, by simp only [Call.change_apply, handUp_layer]⟩

/-- A sound packet is never refused, as the network layer takes everything. -/
theorem receive_isOk {packet : Packet} (h : packet.IsSound) (s : Inside SegmentingRlc (Ends β)) :
    (receive packet s).1 = .ok () := by
  obtain ⟨⟨complete, streams⟩, habsorb⟩ := h.exists_absorb s.layer.streams
  rw [receive_apply packet s habsorb]

end SegmentingRlc

end DataLink
