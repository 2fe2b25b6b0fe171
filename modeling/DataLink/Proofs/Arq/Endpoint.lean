import DataLink.Proofs.Arq.Answer
import DataLink.Proofs.Tower

/-!
# One endpoint of an exchange

An endpoint is an ARQ with an RLC above it; in between a recorder notes what is handed up. `produce`
and `take` are the two ends of the channel. An endpoint that takes frames is *in order* with those that
its peer has numbered if it has handed up the first of them, and if those it keeps early come next
(`Endpoint.IsInOrder`). It stays so exactly if it recognizes what it takes (`IsInOrder.take`,
`IsInOrder.isRecognized`).
-/

namespace DataLink

variable {ε β : Type}

/-! ## Recording -/

/-- Notes the packets that are handed up through it. -/
structure Recorder where
  packets : List Packet

instance [RlcAbove ε] : RlcAbove (Inside Recorder ε) where
  request bits dest := Call.outward (RlcAbove.request bits dest)
  requestBurst bits dest frame := Call.outward (RlcAbove.requestBurst bits dest frame)
  receive packet := do
    Call.change fun r => ⟨r.packets ++ [packet]⟩
    Call.outward (RlcAbove.receive packet)
  inject packet priority := Call.outward (RlcAbove.inject packet priority)
  hasMore dest := Call.outward (RlcAbove.hasMore dest)
  hops := Call.outward RlcAbove.hops
  report id hops := Call.outward (RlcAbove.report id hops)

theorem Recorder.handUp_packets [RlcAbove ε] {packets : List Packet}
    (h : ∀ p ∈ packets, ∀ above : ε, (RlcAbove.receive p above).1 = .ok ())
    (s : Inside SelectiveRepeat (Inside Recorder ε)) :
    (SelectiveRepeat.handUp packets s).2.around.layer.packets =
      s.around.layer.packets ++ packets := by
  induction packets generalizing s with
  | nil => exact (List.append_nil _).symm
  | cons packet rest ih =>
    have hrecorder : RlcAbove.receive packet s.around =
        ((RlcAbove.receive packet s.around.around).1, ⟨⟨s.around.layer.packets ++ [packet]⟩,
          (RlcAbove.receive packet s.around.around).2⟩) := rfl
    rw [SelectiveRepeat.handUp, Call.bind_apply, Call.outward_apply, hrecorder,
      h packet List.mem_cons_self s.around.around]
    simp only
    rw [ih fun p hp => h p (List.mem_cons_of_mem _ hp), List.append_assoc, List.singleton_append]

/-! ## One endpoint -/

/-- An ARQ and an RLC, with a recorder between them. -/
abbrev Endpoint (β : Type) :=
  Inside SelectiveRepeat (Inside Recorder (Inside SegmentingRlc (Ends β)))

namespace Endpoint

/-- An endpoint with a new link to `peer`. -/
def start (arq : SelectiveRepeat) (peer : Address) (maxQueued : Nat) (below : β) : Endpoint β :=
  ⟨arq.linkUp peer, ⟨[]⟩, .empty maxQueued, .empty below⟩

/-- The frames that the ARQ has handed up. -/
def handedUp (e : Endpoint β) : List Packet :=
  e.around.layer.packets.filter fun p => !p.unicastHeaders.isEmpty

/-- Queues a datagram. -/
def send [ArqBelow β] (datagram : Datagram) (dest : Address) (priority : Nat) (e : Endpoint β) :
    Endpoint β :=
  ⟨e.layer, e.around.layer, (SegmentingRlc.accept datagram dest priority e.around.around).2⟩

/-- The packet for `peer`, signed by `source`; none if that fails. -/
def produce (source peer : Address) (bits frame : Nat) (e : Endpoint β) :
    Option Packet × Endpoint β :=
  match SelectiveRepeat.requestBurst bits peer frame e with
  | (.ok packet, e) => (some (packet.sign source), e)
  | (.error _, e) => (none, e)

def take (packet : Packet) (e : Endpoint β) : Endpoint β := (SelectiveRepeat.receive packet e).2

def tick (slots : Nat) (e : Endpoint β) : Endpoint β := { e with layer := e.layer.tick slots }

/-- The endpoint protects its frames for `peer`, and no control packet waits in it. -/
structure IsReady (window : Nat) (peer : Address) (e : Endpoint β) : Prop where
  window : e.layer.config.windowSize = window
  isProtected : e.layer.isProtected peer = true
  injected : e.around.around.layer.injected = .empty

variable {window : Nat} {peer source : Address} {e : Endpoint β}

theorem IsReady.send [ArqBelow β] (h : e.IsReady window peer) (datagram : Datagram)
    (dest : Address) (priority : Nat) : IsReady window peer (e.send datagram dest priority) := by
  refine ⟨h.window, h.isProtected, ?_⟩
  rw [Endpoint.send]
  rcases SegmentingRlc.accept_cases datagram dest priority e.around.around with
    ⟨around, hacc⟩ | ⟨error, around, hacc⟩
  · rw [hacc]
    exact h.injected
  · rw [hacc]
    exact h.injected

/-- Producing a packet fails and leaves the links as they are, or is an answer of the link. -/
theorem IsReady.produce_cases (h : e.IsReady window peer) (source : Address) (bits frame : Nat) :
    (e.produce source peer bits frame).2.IsReady window peer ∧
    (e.produce source peer bits frame).2.around.layer = e.around.layer ∧
    (((e.produce source peer bits frame).1 = none ∧
        (e.produce source peer bits frame).2.layer = e.layer) ∨
      ∃ out l, (e.produce source peer bits frame).1 = some (out.sign source) ∧
        (e.produce source peer bits frame).2.layer = e.layer.setLink peer l ∧
        (e.layer.link peer).Answers window out l) := by
  have hsymbolic : peer.isSymbolic = false := by
    have := h.isProtected
    rw [SelectiveRepeat.isProtected, Bool.and_eq_true, Bool.not_eq_true'] at this
    exact this.2
  have hinjected : (e.around.around.layer.injectedFor peer).items = [] := by
    simp [SegmentingRlc.injectedFor, h.injected, PriorityQueue.empty]
  obtain ⟨packet, queues, hbuilt, hrlc⟩ :=
    SegmentingRlc.requestBurst_built hsymbolic hinjected bits frame
  have hrecorder : RlcAbove.requestBurst bits peer frame e.around =
      (.ok packet, ⟨e.around.layer,
        { e.around.around with layer := { e.around.around.layer with queues } }⟩) := by
    show Call.outward (SegmentingRlc.requestBurst bits peer frame) e.around = _
    rw [Call.outward_apply, hrlc]
  obtain ⟨haround, hcases⟩ := SelectiveRepeat.requestBurst_cases h.isProtected bits frame
    (fun p hp => by rw [hrecorder] at hp; cases hp; exact hbuilt)
  rw [hrecorder] at haround
  rw [h.window] at hcases
  rw [produce]
  generalize SelectiveRepeat.requestBurst bits peer frame e = answer at haround hcases ⊢
  obtain ⟨r, after⟩ := answer
  have hrest : after.around.layer = e.around.layer ∧
      after.around.around.layer.injected = .empty := by
    change after.around = _ ∨ after.around = _ at haround
    rcases haround with haround | haround
    · rw [haround]
      exact ⟨rfl, h.injected⟩
    · rw [haround]
      exact ⟨rfl, h.injected⟩
  rcases hcases with ⟨error, hr, hlayer⟩ | ⟨out, l, hr, hlayer, hanswers⟩
  · cases hr
    exact ⟨⟨hlayer ▸ h.window, hlayer ▸ h.isProtected, hrest.2⟩, hrest.1, Or.inl ⟨rfl, hlayer⟩⟩
  · cases hr
    have hwindow : after.layer.config.windowSize = window := by rw [hlayer]; exact h.window
    have hprotected : after.layer.isProtected peer = true := by rw [hlayer]; exact h.isProtected
    exact ⟨⟨hwindow, hprotected, hrest.2⟩, hrest.1, Or.inr ⟨out, l, rfl, hlayer, hanswers⟩⟩

/-! ### Requests for anybody -/

theorem produce_snd (source dest : Address) (bits frame : Nat) (e : Endpoint β) :
    (e.produce source dest bits frame).2 = (SelectiveRepeat.requestBurst bits dest frame e).2 := by
  rw [produce]
  generalize SelectiveRepeat.requestBurst bits dest frame e = answer
  obtain ⟨_ | _, after⟩ := answer <;> rfl

/-- Producing a packet, for anybody, hands nothing up. -/
theorem produce_recorder (source dest : Address) (bits frame : Nat) (e : Endpoint β) :
    (e.produce source dest bits frame).2.around.layer = e.around.layer := by
  rw [produce_snd]
  rcases SelectiveRepeat.requestBurst_around bits frame dest e with haround | haround
  · rw [haround]
  · rw [haround]
    rfl

theorem link_produce_of_ne {dest : Address} (hne : dest ≠ peer) (source : Address)
    (bits frame : Nat) (e : Endpoint β) :
    (e.produce source dest bits frame).2.layer.link peer = e.layer.link peer := by
  rw [produce_snd]
  rcases SelectiveRepeat.requestBurst_layer bits frame dest e with hlayer | ⟨l, hlayer, -⟩
  · rw [hlayer]
  · rw [hlayer, SelectiveRepeat.link_setLink, if_neg hne]

theorem IsReady.produce (h : e.IsReady window peer) (source dest : Address) (bits frame : Nat) :
    IsReady window peer (e.produce source dest bits frame).2 := by
  rw [produce_snd]
  have hconfig := (SelectiveRepeat.receivesLike_requestBurst bits frame dest e).1
  refine ⟨hconfig ▸ h.window, ?_, ?_⟩
  · rw [SelectiveRepeat.isProtected, hconfig]
    exact h.isProtected
  · have hinjected : (e.around.around.layer.injectedFor dest).items = [] := by
      simp [SegmentingRlc.injectedFor, h.injected, PriorityQueue.empty]
    obtain ⟨queues, hrlc⟩ := SegmentingRlc.requestBurst_queues hinjected bits frame
    rcases SelectiveRepeat.requestBurst_around bits frame dest e with haround | haround
    · rw [haround]
      exact h.injected
    · have hrecorder : (RlcAbove.requestBurst bits dest frame e.around).2 = ⟨e.around.layer,
          { e.around.around with layer := { e.around.around.layer with queues } }⟩ := by
        show (Call.outward (SegmentingRlc.requestBurst bits dest frame) e.around).2 = _
        rw [Call.outward_apply, hrlc]
      rw [haround, hrecorder]
      exact h.injected

/-! ### Taking packets -/

theorem receive_recorder (packet : Packet)
    (s : Inside Recorder (Inside SegmentingRlc (Ends β))) :
    (RlcAbove.receive packet s).2.layer.packets = s.layer.packets ++ [packet] ∧
      (RlcAbove.receive packet s).2.around.layer.injected = s.around.layer.injected := by
  obtain ⟨streams, hstreams⟩ := SegmentingRlc.receive_layer packet s.around
  have hreceive : RlcAbove.receive packet s = ((SegmentingRlc.receive packet s.around).1,
      ⟨⟨s.layer.packets ++ [packet]⟩, (SegmentingRlc.receive packet s.around).2⟩) := rfl
  rw [hreceive, hstreams]
  exact ⟨rfl, rfl⟩

theorem handUp_injected (packets : List Packet) (e : Endpoint β) :
    (SelectiveRepeat.handUp packets e).2.around.around.layer.injected =
      e.around.around.layer.injected := by
  induction packets generalizing e with
  | nil => rfl
  | cons packet rest ih =>
    have hrecorder := (receive_recorder packet e.around).2
    rw [SelectiveRepeat.handUp, Call.bind_apply, Call.outward_apply]
    generalize RlcAbove.receive packet e.around = answer at hrecorder ⊢
    rcases answer with ⟨error | _, around⟩
    · exact hrecorder
    · simp only
      rw [ih]
      exact hrecorder

theorem handUp_packets {packets : List Packet} (h : ∀ p ∈ packets, p.IsSound) (e : Endpoint β) :
    (SelectiveRepeat.handUp packets e).2.around.layer.packets =
      e.around.layer.packets ++ packets :=
  Recorder.handUp_packets (fun p hp above => SegmentingRlc.receive_isOk (h p hp) above) e

/-- The first packet is handed up whatever the RLC says to it, and the others may be. -/
theorem handUp_extends (packets : List Packet) (e : Endpoint β) :
    ∃ more, (SelectiveRepeat.handUp packets e).2.around.layer.packets =
      e.around.layer.packets ++ more ∧ more.head? = packets.head? := by
  induction packets generalizing e with
  | nil => exact ⟨[], (List.append_nil _).symm, rfl⟩
  | cons packet rest ih =>
    have hrecorder := (receive_recorder packet e.around).1
    rw [SelectiveRepeat.handUp, Call.bind_apply, Call.outward_apply]
    generalize RlcAbove.receive packet e.around = answer at hrecorder ⊢
    rcases answer with ⟨error | _, around⟩
    · exact ⟨[packet], hrecorder, rfl⟩
    · obtain ⟨more, hmore, -⟩ := ih ⟨e.layer, around⟩
      refine ⟨packet :: more, ?_, rfl⟩
      simp only
      rw [hmore, hrecorder, List.append_assoc, List.singleton_append]

theorem IsReady.take (h : e.IsReady window peer) (packet : Packet) :
    IsReady window peer (e.take packet) := by
  rw [Endpoint.take, SelectiveRepeat.receive_apply]
  cases packet.arqHeader? with
  | some header =>
    simp only
    rw [SelectiveRepeat.takeIn_apply]
    refine ⟨?_, ?_, ?_⟩
    · rw [SelectiveRepeat.handUp_layer]
      exact h.window
    · rw [SelectiveRepeat.handUp_layer]
      exact h.isProtected
    · rw [handUp_injected]
      exact h.injected
  | none => exact ⟨h.window, h.isProtected, (receive_recorder packet e.around).2.trans h.injected⟩

theorem take_of_none {packet : Packet} (h : packet.arqHeader? = none) (e : Endpoint β) :
    (e.take packet).layer = e.layer ∧
      (e.take packet).around.layer.packets = e.around.layer.packets ++ [packet] := by
  rw [take, SelectiveRepeat.receive_apply, h]
  exact ⟨rfl, (receive_recorder packet e.around).1⟩

/-- A packet with ARQ fields changes the link to its sender, and what can be handed up then is. -/
theorem take_of_some {packet : Packet} {header : UnicastHeader}
    (h : packet.arqHeader? = some header) (horigin : packet.origin = source) (e : Endpoint β) :
    e.take packet = (SelectiveRepeat.handUp
        ((e.layer.link source).takeIn header packet e.layer.config.windowSize).1
        { e with
          layer := e.layer.setLink source
            ((e.layer.link source).takeIn header packet e.layer.config.windowSize).2 }).2 := by
  rw [take, SelectiveRepeat.receive_apply, h, horigin]
  simp only
  rw [SelectiveRepeat.takeIn_apply]

theorem link_take {packet : Packet} {header : UnicastHeader}
    (h : packet.arqHeader? = some header) (horigin : packet.origin = source) (e : Endpoint β) :
    (e.take packet).layer.link source =
      ((e.layer.link source).takeIn header packet e.layer.config.windowSize).2 := by
  rw [take_of_some h horigin, SelectiveRepeat.handUp_layer, SelectiveRepeat.link_setLink, if_pos rfl]

theorem holdsFrames_take (h : (e.layer.link peer).HoldsFrames) (packet : Packet) :
    ((e.take packet).layer.link peer).HoldsFrames := by
  cases hh : packet.arqHeader? with
  | none =>
    rw [(take_of_none hh e).1]
    exact h
  | some header =>
    by_cases heq : packet.origin = peer
    · rw [link_take hh heq]
      exact h.takeIn header packet _
    · rw [take_of_some hh rfl, SelectiveRepeat.handUp_layer, SelectiveRepeat.link_setLink, if_neg heq]
      exact h

/-! ## In order -/

theorem handedUp_append {after : Endpoint β} {more : List Packet}
    (h : after.around.layer.packets = e.around.layer.packets ++ more) :
    after.handedUp = e.handedUp ++ more.filter fun p => !p.unicastHeaders.isEmpty := by
  rw [handedUp, h, List.filter_append, handedUp]

theorem take_of_silent {packet : Packet} (hdata : packet.unicastHeaders.isEmpty = true)
    (e : Endpoint β) : (e.take packet).layer = e.layer ∧ (e.take packet).handedUp = e.handedUp := by
  obtain ⟨hlayer, hpackets⟩ := take_of_none (Packet.arqHeader?_eq_none hdata) e
  refine ⟨hlayer, ?_⟩
  rw [handedUp_append hpackets]
  simp [hdata]

/-- Sound frames that can be handed up are. -/
theorem handedUp_take {packet : Packet} {header : UnicastHeader}
    (h : packet.arqHeader? = some header) (horigin : packet.origin = source)
    (hwindow : e.layer.config.windowSize = window)
    (hframes : ∀ p ∈ ((e.layer.link source).takeIn header packet window).1,
      p.IsFrame ∧ p.IsSound) : (e.take packet).handedUp =
        e.handedUp ++ ((e.layer.link source).takeIn header packet window).1 := by
  have hpackets : (e.take packet).around.layer.packets = e.around.layer.packets ++
      ((e.layer.link source).takeIn header packet window).1 := by
    rw [take_of_some h horigin, hwindow]
    exact handUp_packets (fun p hp => (hframes p hp).2) _
  rw [handedUp_append hpackets, List.filter_eq_self.2]
  intro p hp
  rw [(hframes p hp).1.unicastHeaders]
  rfl

theorem handedUp_le_take (packet : Packet) (e : Endpoint β) :
    e.handedUp.length ≤ (e.take packet).handedUp.length := by
  have hmore : ∃ more, (e.take packet).around.layer.packets = e.around.layer.packets ++ more := by
    cases hh : packet.arqHeader? with
    | none => exact ⟨_, (take_of_none hh e).2⟩
    | some header =>
      rw [take_of_some hh rfl]
      obtain ⟨more, hmore, -⟩ := handUp_extends
        ((e.layer.link packet.origin).takeIn header packet e.layer.config.windowSize).1
        { e with
          layer := e.layer.setLink packet.origin
            ((e.layer.link packet.origin).takeIn header packet e.layer.config.windowSize).2 }
      exact ⟨more, hmore⟩
  obtain ⟨more, hmore⟩ := hmore
  rw [handedUp_append hmore, List.length_append]
  exact Nat.le_add_right _ _

/-- The endpoint has handed up the first of the frames `sent`, and what it keeps early comes next. -/
structure IsInOrder (window : Nat) (sent : List Packet) (source : Address) (e : Endpoint β) :
    Prop where
  handedUp : e.handedUp.map Packet.content <+: sent
  receiving : Receiving window sent sent.length e.handedUp.length (e.layer.link source)

namespace IsInOrder

variable {sent : List Packet} {packet : Packet} {header : UnicastHeader}

theorem congr (h : e.IsInOrder window sent source) {after : Endpoint β}
    (hup : after.around.layer = e.around.layer)
    (hlike : (e.layer.link source).ReceivesLike (after.layer.link source)) :
    after.IsInOrder window sent source := by
  have hsame : after.handedUp = e.handedUp := by rw [Endpoint.handedUp, hup, Endpoint.handedUp]
  exact ⟨hsame ▸ h.handedUp, hsame ▸ h.receiving.congr hlike⟩

theorem mono (h : e.IsInOrder window sent source) {more : List Packet} (hmore : sent <+: more) :
    e.IsInOrder window more source :=
  ⟨h.handedUp.trans hmore, h.receiving.mono hmore hmore.length_le⟩

theorem take_silent (h : e.IsInOrder window sent source)
    (hdata : packet.unicastHeaders.isEmpty = true) :
    (e.take packet).IsInOrder window sent source := by
  obtain ⟨hlayer, hsame⟩ := take_of_silent hdata e
  exact ⟨hsame ▸ h.handedUp, hsame ▸ hlayer ▸ h.receiving⟩

/-- What is recognized is handed up when it is the next one. -/
theorem take (h : e.IsInOrder window sent source) (hwindow : e.layer.config.windowSize = window)
    (hpos : 0 < window) (hwidest : window ≤ 127) (hframes : ∀ c ∈ sent, c.IsFrame ∧ c.IsSound)
    (hheader : packet.arqHeader? = some header) (horigin : packet.origin = source)
    (hpacket : packet.IsRecognized window sent e.handedUp.length header.seq) :
    (e.take packet).IsInOrder window sent source := by
  rw [← List.take_length (l := sent)] at hpacket
  obtain ⟨after, hle, hafter, htake⟩ :=
    h.receiving.takeIn hpos hwidest (Nat.le_refl _) hpacket
  have hnew : ∀ p ∈ ((e.layer.link source).takeIn header packet window).1,
      p.IsFrame ∧ p.IsSound := by
    intro p hp
    have hmem : p.content ∈ sent.take after :=
      htake ▸ List.mem_append_right _ (List.mem_map_of_mem hp)
    rw [← Packet.isFrame_content, ← Packet.isSound_content]
    exact hframes _ (List.mem_of_mem_take hmem)
  have hbefore := h.handedUp
  rw [List.prefix_iff_eq_take, List.length_map] at hbefore
  have hup : (e.take packet).handedUp.map Packet.content = sent.take after := by
    rw [handedUp_take hheader horigin hwindow hnew, List.map_append, hbefore, htake]
  have hlength : (e.take packet).handedUp.length = after := by
    rw [← List.length_map Packet.content, hup, List.length_take_of_le hafter.received_le]
  refine ⟨?_, ?_⟩
  · rw [hup]
    exact List.take_prefix _ _
  · rw [hlength, link_take hheader horigin, hwindow]
    exact hafter

/-- Where the endpoint is in order afterwards, it has recognized the packet. -/
theorem isRecognized (h : e.IsInOrder window sent source)
    (hwindow : e.layer.config.windowSize = window) (hpos : 0 < window) (hwidest : window ≤ 127)
    (hheader : packet.arqHeader? = some header) (horigin : packet.origin = source)
    (hafter : (e.take packet).IsInOrder window sent source) :
    packet.IsRecognized window sent e.handedUp.length header.seq := by
  obtain ⟨more, hmore, hhead⟩ := handUp_extends
    ((e.layer.link source).takeIn header packet e.layer.config.windowSize).1
    { e with
      layer := e.layer.setLink source
        ((e.layer.link source).takeIn header packet e.layer.config.windowSize).2 }
  rw [← take_of_some hheader horigin] at hmore
  have hup : (e.take packet).handedUp =
      e.handedUp ++ more.filter fun p => !p.unicastHeaders.isEmpty := handedUp_append hmore
  rw [hwindow] at hhead
  have hreceiving := hafter.receiving
  rw [link_take hheader horigin, hwindow] at hreceiving
  refine h.receiving.isRecognized_of_takeIn hpos hwidest hreceiving ?_ ?_
  · intro hnone
    rw [hnone, List.head?_nil, List.head?_eq_none_iff] at hhead
    rw [hup, hhead, List.filter_nil, List.append_nil]
  · intro hfirst
    rw [hfirst] at hhead
    obtain ⟨rest, rfl⟩ := List.head?_eq_some_iff.1 hhead
    have hdata : packet.unicastHeaders.isEmpty = false := by
      rw [← Bool.not_eq_true]
      intro hempty
      rw [Packet.arqHeader?_eq_none hempty] at hheader
      cases hheader
    obtain ⟨last, hlast⟩ := hafter.handedUp
    rw [← hlast, hup, List.filter_cons, hdata]
    simp

end IsInOrder

end Endpoint

end DataLink
