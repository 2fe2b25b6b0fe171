import DataLink.Proofs.Arq.Budget
import DataLink.Proofs.Station.Upper

/-!
# What a station builds

When a packet is asked for, the ARQ of a station sends a frame again or asks the RLC, and the RLC takes
out a control packet or fills one from its queue. None of this depends on the other layers:
`Upper.request` is what the two answer and what becomes of them, and `Upper.hasMore` is whether they
have anything to send. `request_around` and `hasMore_around` say that this is what the MAC is told.

Control packets set up links and wait for the broadcast channel, no queue is kept with nothing in it,
and a link holds frames for its own peer only, if that is protected at all: the layers are *in order*
(`Upper.IsOrderly`). A request leaves them in order, and what it builds for a destination suits it
(`Packet.Suits`): it sets up a link, or it is a frame for that station, or it is data for everybody.
-/

namespace DataLink

/-! ## Kinds of packets -/

namespace Packet

/-- The packet asks for a link, or grants one. -/
inductive IsLinkControl : Packet → Prop
  | request (source : Address) (h : UnicastHeader) (r : Reservation) : IsLinkControl
      (.ofMessages [⟨some (.base (.ofSource source)), none⟩, ⟨some (.linkRequest h r), none⟩])
  | reply (source : Address) (h : UnicastHeader) (r : Reservation) : IsLinkControl
      (.ofMessages [⟨some (.base (.ofSource source)), none⟩, ⟨some (.linkReply h r), none⟩])

/-- The packet is a frame, and all of its data is for `dest`. -/
structure IsFrameFor (dest : Address) (p : Packet) : Prop extends IsFrame p where
  station : dest.isSymbolic = false
  types : ∀ t ∈ p.shape, t = .base ∨ t = .unicast
  named : ∀ h ∈ p.unicastHeaders, h.dest = dest

/-- What may be sent to `dest`: what sets up a link, a frame for `dest`, or data for everybody. -/
def Suits (dest : Address) (p : Packet) : Prop :=
  p.IsLinkControl ∨ p.IsFrameFor dest ∨ ∀ t ∈ p.shape, t = .base ∨ t = .broadcast

variable {p out : Packet} {dest : Address}

theorem IsLinkControl.lead (h : p.IsLinkControl) : p.shape.head? = some .base := by
  cases h <;> rfl

theorem IsLinkControl.size (h : p.IsLinkControl) : p.size = 2 := by
  cases h <;> rfl

theorem IsLinkControl.length (h : p.IsLinkControl) : p.length = Width.base + Width.link := by
  cases h <;> rfl

theorem IsLinkControl.isSized (h : p.IsLinkControl) : p.IsSized := by
  rw [IsSized, h.length]
  decide

theorem IsLinkControl.injectionKey (h : p.IsLinkControl) :
    SegmentingRlc.injectionKey p = .broadcast := by
  cases h <;> rfl

theorem IsLinkControl.types (h : p.IsLinkControl) :
    ∀ t ∈ p.shape, t = .base ∨ t = .linkRequest ∨ t = .linkReply := by
  have hshape : p.shape = [.base, .linkRequest] ∨ p.shape = [.base, .linkReply] := by
    cases h with
    | request source u r => exact Or.inl rfl
    | reply source u r => exact Or.inr rfl
  rcases hshape with hshape | hshape <;> rw [hshape] <;> decide

theorem IsFrameFor.mapUnicast (h : p.IsFrameFor dest) {f : UnicastHeader → UnicastHeader}
    (hf : ∀ u, (f u).dest = u.dest) : (p.mapUnicast f).IsFrameFor dest where
  lead := (shape_mapUnicast f p).symm ▸ h.lead
  data := (shape_mapUnicast f p).symm ▸ h.data
  station := h.station
  types := (shape_mapUnicast f p).symm ▸ h.types
  named := by
    intro u hu
    rw [unicastHeaders_mapUnicast] at hu
    obtain ⟨v, hv, rfl⟩ := List.mem_map.1 hu
    rw [hf, h.named v hv]

theorem IsFrameFor.copy (h : p.IsFrameFor dest) : p.copy.IsFrameFor dest :=
  ⟨⟨h.lead, h.data⟩, h.station, h.types, h.named⟩

/-- A frame is addressed to the station that its data is for. -/
theorem IsFrameFor.dest_eq (h : p.IsFrameFor dest) : p.dest = dest := by
  have hcontains : ∀ t : FrameType, t ≠ .base → t ≠ .unicast → p.contains t = false := by
    intro t hbase hunicast
    rw [contains, List.any_eq_false]
    intro header hheader htype
    rw [decide_eq_true_eq] at htype
    rcases h.types t (List.mem_map.2 ⟨header, hheader, htype⟩) with rfl | rfl
    · exact hbase rfl
    · exact hunicast rfl
  have hdata := h.toIsFrame.unicastHeaders
  rw [Packet.dest, hcontains .beacon (by decide) (by decide),
    hcontains .broadcast (by decide) (by decide)]
  cases hu : p.unicastHeaders with
  | nil => simp [hu] at hdata
  | cons u rest => exact h.named u (by rw [hu]; exact List.mem_cons_self)

/-- A packet without data for a station is a frame for it once it carries an acknowledgement. -/
theorem isFrameFor_acknowledged (hdest : dest.isSymbolic = false) {header : UnicastHeader}
    (hheader : header.dest = dest)
    (hadd : SegmentingRlc.blank.add (some (.unicast header)) none = .ok out) :
    out.IsFrameFor dest := by
  have hheaders := headers_add hadd
  have hunicast : out.unicastHeaders = [header] := by
    rw [unicastHeaders, hheaders]
    rfl
  have hshape : out.shape = [.base, .unicast] := by
    rw [shape, hheaders]
    rfl
  refine ⟨⟨by rw [hshape]; rfl, by rw [hshape]; rfl⟩, hdest, by rw [hshape]; simp, ?_⟩
  rw [hunicast]
  intro u hu
  rw [List.mem_singleton.1 hu, hheader]

end Packet

/-! ## The RLC -/

namespace SegmentingRlc

/-- The packet that is built next for `dest`, and the RLC afterwards. -/
def build (r : SegmentingRlc) (bits : Nat) (dest : Address) : Except Fault Packet × SegmentingRlc :=
  if bits < Width.base then (.ok .empty, r)
  else match r.popInjected bits dest with
    | .error e => (.error e, r)
    | .ok (some (packet, after)) => (.ok packet, after)
    | .ok none =>
      match r.fill bits dest with
      | .error e => (.error (.layer e), r)
      | .ok (packet, after) => (.ok packet, after)

theorem requestBurst_eq_build {ε : Type} (bits : Nat) (dest : Address) (s : Inside SegmentingRlc ε) :
    requestBurst bits dest 0 s =
      ((s.layer.build bits dest).1, { s with layer := (s.layer.build bits dest).2 }) := by
  rw [requestBurst_eq, build, controlFor, if_pos rfl]
  split
  · rfl
  · cases s.layer.popInjected bits dest with
    | error e => rfl
    | ok control =>
      cases control with
      | some served => rfl
      | none => cases s.layer.fill bits dest <;> rfl

/-- Pieces for a destination without a carrier are in no packet. -/
theorem fill_cases (r : SegmentingRlc) (bits : Nat) (dest : Address) :
    (r.fill bits dest =
        .ok (packed dest (r.cutFor bits dest).1, r.setQueue dest (r.cutFor bits dest).2) ∧
      (IsCarried dest ∨ (r.cutFor bits dest).1 = [])) ∨
    ∃ e, r.fill bits dest = .error e ∧ ¬ IsCarried dest := by
  by_cases hdest : IsCarried dest
  · exact Or.inl ⟨fill_eq hdest r bits, Or.inl hdest⟩
  · by_cases hpieces : (r.cutFor bits dest).1 = []
    · rw [fill_eq_map, hpieces]
      exact Or.inl ⟨rfl, Or.inr rfl⟩
    · exact Or.inr ⟨_, fill_eq_error hdest hpieces, hdest⟩

/-- Control packets set up links and wait for the broadcast channel, and whatever has a queue has
something in it. -/
structure IsOrderly (r : SegmentingRlc) : Prop where
  control : ∀ key waiting, r.injected.get? key = some waiting →
    key = .broadcast ∧ waiting.items ≠ [] ∧ ∀ e ∈ waiting.items, e.2.IsLinkControl
  queued : ∀ dest q, r.queues.get? dest = some q → q.items ≠ []

variable {r : SegmentingRlc} {bits : Nat} {dest : Address}

theorem IsOrderly.injectedFor (h : r.IsOrderly) :
    ∀ e ∈ (r.injectedFor dest).items, e.2.IsLinkControl ∧ dest = .broadcast := by
  unfold SegmentingRlc.injectedFor
  cases hget : r.injected.get? dest with
  | none => exact fun e he => by cases he
  | some waiting =>
    obtain ⟨hkey, -, hcontrol⟩ := h.control dest waiting hget
    exact fun e he => ⟨hcontrol e he, hkey⟩

theorem IsOrderly.holdsSized (h : r.IsOrderly) : r.HoldsSized := by
  intro key waiting hget e he
  obtain ⟨rfl, -, hcontrol⟩ := h.control key waiting hget
  exact ⟨(hcontrol e he).isSized, (hcontrol e he).injectionKey⟩

theorem IsOrderly.inject (h : r.IsOrderly) {packet : Packet} (hp : packet.IsLinkControl)
    (priority : Nat) : (r.inject packet priority).IsOrderly := by
  refine ⟨fun key waiting hget => ?_, h.queued⟩
  simp only [SegmentingRlc.inject, hp.injectionKey, Table.get?_insert] at hget
  split at hget
  · next hkey =>
    cases hget
    refine ⟨hkey.symm, PriorityQueue.items_push_ne_nil _ priority packet, fun e he => ?_⟩
    rcases List.mem_cons.1 ((PriorityQueue.place_perm priority packet _).mem_iff.1 he) with rfl | he
    · exact hp
    · exact (h.injectedFor e he).1
  · exact h.control key waiting hget

theorem IsOrderly.setQueue (h : r.IsOrderly) (dest : Address) (items : List (Nat × Outgoing)) :
    (r.setQueue dest items).IsOrderly := by
  refine ⟨h.control, fun other q hget => ?_⟩
  rw [SegmentingRlc.setQueue, Table.get?_set] at hget
  split at hget
  · exact (PriorityQueue.nonempty?_eq_some hget).2
  · exact h.queued other q hget

theorem IsOrderly.enqueue (h : r.IsOrderly) (datagram : Datagram) (dest : Address) (priority : Nat) :
    (r.enqueue datagram dest priority).IsOrderly := by
  refine ⟨h.control, fun other q hget => ?_⟩
  simp only [SegmentingRlc.enqueue, Table.get?_insert] at hget
  split at hget
  · cases hget
    exact PriorityQueue.items_push_ne_nil _ priority (Outgoing.fresh datagram)
  · exact h.queued other q hget

/-- A control packet is taken out for the broadcast channel only. -/
theorem IsOrderly.popInjected (h : r.IsOrderly) {packet : Packet} {after : SegmentingRlc}
    (hpop : r.popInjected bits dest = .ok (some (packet, after))) :
    packet.IsLinkControl ∧ dest = .broadcast ∧ after.IsOrderly := by
  obtain ⟨hfront, -, rfl⟩ := popInjected_eq_some hpop
  obtain ⟨e, he, rfl⟩ := Option.map_eq_some_iff.1 hfront
  obtain ⟨hcontrol, hdest⟩ := h.injectedFor e (List.mem_of_mem_head? he)
  refine ⟨hcontrol, hdest, fun key waiting hget => ?_, h.queued⟩
  rw [Table.get?_set] at hget
  split at hget
  · next hkey =>
    obtain ⟨rfl, hne⟩ := PriorityQueue.nonempty?_eq_some hget
    exact ⟨hkey ▸ hdest, hne, fun e he => (h.injectedFor e (List.mem_of_mem_tail he)).1⟩
  · exact h.control key waiting hget

/-- What the RLC builds for `dest`: nothing, what sets up a link, or a packet with pieces of what is
queued for `dest`. -/
theorem IsOrderly.build (h : r.IsOrderly) (bits : Nat) (dest : Address) :
    (r.build bits dest).2.IsOrderly ∧ ∀ packet, (r.build bits dest).1 = .ok packet →
      packet = .empty ∨ (packet.IsLinkControl ∧ dest = .broadcast) ∨
        ∃ pieces, packet = packed dest pieces ∧ (IsCarried dest ∨ pieces = []) := by
  unfold SegmentingRlc.build
  split
  · refine ⟨h, fun packet hp => ?_⟩
    cases hp
    exact Or.inl rfl
  · split
    · exact ⟨h, fun packet hp => by cases hp⟩
    · next packet after hpop =>
      obtain ⟨hcontrol, hdest, hafter⟩ := h.popInjected hpop
      refine ⟨hafter, fun p hp => ?_⟩
      cases hp
      exact Or.inr (Or.inl ⟨hcontrol, hdest⟩)
    · rcases r.fill_cases bits dest with ⟨hfill, hpieces⟩ | ⟨e, hfill, -⟩
      · rw [hfill]
        refine ⟨h.setQueue dest _, fun p hp => ?_⟩
        cases hp
        exact Or.inr (Or.inr ⟨_, rfl, hpieces⟩)
      · rw [hfill]
        exact ⟨h, fun p hp => by cases hp⟩

theorem isFrameFor_packed (hdest : dest.isSymbolic = false) {pieces : List (Fragment × Segment)}
    (hpieces : pieces ≠ []) : (packed dest pieces).IsFrameFor dest := by
  have hcarrier : ∀ fragment, carrier dest fragment =
      .unicast { (default : UnicastHeader) with dest, fragment } := by
    intro fragment
    rw [carrier, if_neg]
    rintro (rfl | rfl) <;> cases hdest
  have hshape : (packed dest pieces).shape = .base :: pieces.map fun _ => .unicast := by
    rw [Packet.shape, headers_packed, List.map_cons, List.map_map]
    simp [hcarrier, Function.comp_def, Header.frameType]
  refine ⟨⟨by rw [hshape]; rfl, ?_⟩, hdest, ?_, ?_⟩
  · rw [hshape]
    cases pieces with
    | nil => exact absurd rfl hpieces
    | cons piece rest => rfl
  · intro t ht
    rw [hshape] at ht
    rcases List.mem_cons.1 ht with rfl | ht
    · exact Or.inl rfl
    · obtain ⟨-, -, rfl⟩ := List.mem_map.1 ht
      exact Or.inr rfl
  · intro u hu
    rw [Packet.unicastHeaders, headers_packed] at hu
    obtain ⟨h, hh, hu⟩ := List.mem_filterMap.1 hu
    rcases List.mem_cons.1 hh with rfl | hh
    · cases hu
    · obtain ⟨piece, -, rfl⟩ := List.mem_map.1 hh
      rw [hcarrier] at hu
      cases hu
      rfl

theorem shape_packed_nil (dest : Address) : (packed dest []).shape = [.base] := by
  rw [Packet.shape, headers_packed]
  rfl

/-- A packet that was filled suits its destination. -/
theorem suits_packed {pieces : List (Fragment × Segment)} (h : IsCarried dest ∨ pieces = []) :
    (packed dest pieces).Suits dest := by
  have heverybody : (dest = .broadcast ∨ dest = .beacon) →
      ∀ t ∈ (packed dest pieces).shape, t = .base ∨ t = .broadcast := by
    intro hdest t ht
    rw [Packet.shape, headers_packed] at ht
    obtain ⟨header, hheader, rfl⟩ := List.mem_map.1 ht
    rcases List.mem_cons.1 hheader with rfl | hheader
    · exact Or.inl rfl
    · obtain ⟨piece, -, rfl⟩ := List.mem_map.1 hheader
      rw [carrier, if_pos hdest]
      exact Or.inr rfl
  by_cases hpieces : pieces = []
  · subst hpieces
    exact Or.inr (Or.inr (by simp [shape_packed_nil]))
  · rcases h.resolve_right hpieces with hdest | hdest | hdest
    · exact Or.inr (Or.inr (heverybody (Or.inl hdest)))
    · exact Or.inr (Or.inr (heverybody (Or.inr hdest)))
    · exact Or.inr (Or.inl (isFrameFor_packed hdest hpieces))

theorem lead_packed (dest : Address) (pieces : List (Fragment × Segment)) :
    (packed dest pieces).shape.head? = some .base := by
  rw [Packet.shape, headers_packed]
  rfl

end SegmentingRlc

/-! ## The ARQ -/

namespace SelectiveRepeat

/-- What a link to `id` may hold: sized frames for `id`, if that is protected. -/
structure MayHold (a : SelectiveRepeat) (id : Address) (p : Packet) : Prop where
  isProtected : a.isProtected id = true
  isFrame : p.IsFrameFor id
  isSized : p.IsSized

theorem MayHold.stamp {a : SelectiveRepeat} {id : Address} {p : Packet} (h : a.MayHold id p)
    (l : Link) (seq : SequenceNumber) (window : Nat) :
    a.MayHold id (p.copy.mapUnicast (l.stamp seq window)) where
  isProtected := h.isProtected
  isFrame := h.isFrame.copy.mapUnicast fun _ => rfl
  isSized := by
    rw [Packet.IsSized, Packet.length_mapUnicast]
    exact h.isSized

end SelectiveRepeat

/-! ## The ARQ and the RLC -/

namespace Upper

/-- What is answered to a request for `dest`, and the layers above the MAC afterwards. -/
def request (x : Upper) (bits : Nat) (dest : Address) : Except Fault Packet × Upper :=
  if x.arq.isProtected dest then
    match x.arq.resend bits dest with
    | .error e => (.error e, x)
    | .ok (some (packet, arq)) => (.ok packet, { x with arq })
    | .ok none =>
      match x.rlc.build bits dest with
      | (.error e, rlc) => (.error e, { x with rlc })
      | (.ok packet, rlc) =>
        match x.arq.sequence packet bits dest with
        | .error e => (.error e, { x with rlc })
        | .ok (packet, arq) => (.ok packet, { x with rlc, arq })
  else ((x.rlc.build bits dest).1, { x with rlc := (x.rlc.build bits dest).2 })

/-- The ARQ or the RLC has anything to send to `dest`. -/
def hasMore (x : Upper) (dest : Address) : Bool :=
  (x.arq.links.get? dest).any (fun l => l.isOwing x.arq.config.windowSize x.arq.slot) ||
    x.rlc.hasMore dest

/-- The layers above the MAC are in the station. -/
structure IsIn (x : Upper) (s : Station) : Prop where
  rlc : s.rlc = .idle (.segmenting x.rlc)
  wired : s.wired = Joint.all

variable {x : Upper} {s : Station} {bits : Nat} {dest : Address}

theorem IsIn.requestBurst_rlc (h : x.IsIn s) (bits : Nat) (dest : Address) :
    RlcAbove.requestBurst bits dest 0 s = ((x.rlc.build bits dest).1,
      { s with rlc := .idle (.segmenting (x.rlc.build bits dest).2) }) := by
  obtain ⟨net, rlc, arq, mac, phy, wired, journal⟩ := s
  obtain ⟨hrlc, hwired⟩ := h
  cases hrlc
  cases hwired
  have hcall : ∀ answer, SegmentingRlc.requestBurst bits dest 0
      ⟨x.rlc, (⟨net, .entered, arq, mac, phy, Joint.all, journal⟩ : Station)⟩ = answer →
      RlcAbove.requestBurst bits dest 0 (⟨net, .idle (.segmenting x.rlc), arq, mac, phy, Joint.all,
        journal⟩ : Station) = (answer.1, { answer.2.around with
          rlc := answer.2.around.rlc.leave (.segmenting answer.2.layer) }) := by
    rintro _ rfl
    rfl
  exact hcall _ (SegmentingRlc.requestBurst_eq_build bits dest _)

theorem IsIn.requestBurst_arq (h : x.IsIn s) (bits : Nat) (dest : Address) :
    SelectiveRepeat.requestBurst bits dest 0 ⟨x.arq, s⟩ = ((x.request bits dest).1,
      ⟨(x.request bits dest).2.arq,
        { s with rlc := .idle (.segmenting (x.request bits dest).2.rlc) }⟩) := by
  have hsame : s = { s with rlc := .idle (.segmenting x.rlc) } := by
    rw [← h.rlc]
  by_cases hp : x.arq.isProtected dest = true
  · rw [SelectiveRepeat.requestBurst_apply hp, request, if_pos hp]
    simp only [h.requestBurst_rlc]
    cases hres : x.arq.resend bits dest with
    | error e => exact congrArg (fun s => (_, (⟨x.arq, s⟩ : Inside SelectiveRepeat Station))) hsame
    | ok found =>
      cases found with
      | some found =>
        exact congrArg (fun s => (_, (⟨found.2, s⟩ : Inside SelectiveRepeat Station))) hsame
      | none =>
        rcases hbuild : x.rlc.build bits dest with ⟨e | packet, rlc⟩
        · rfl
        · simp only
          cases x.arq.sequence packet bits dest <;> rfl
  · rw [request, if_neg hp, SelectiveRepeat.requestBurst_unprotected (by simpa using hp),
      h.requestBurst_rlc]

theorem IsIn.hasMore_arq (h : x.IsIn s) (dest : Address) :
    SelectiveRepeat.hasMore dest ⟨x.arq, s⟩ = (.ok (x.hasMore dest), ⟨x.arq, s⟩) := by
  have hrlc : RlcAbove.hasMore dest s = (.ok (x.rlc.hasMore dest), s) := by
    obtain ⟨net, rlc, arq, mac, phy, wired, journal⟩ := s
    obtain ⟨hrlc, hwired⟩ := h
    cases hrlc
    cases hwired
    rfl
  rw [SelectiveRepeat.hasMore, Call.bind_apply, Call.own_apply, hasMore]
  simp only
  cases x.arq.links.get? dest with
  | none => simp [Call.outward_apply, hrlc]
  | some l =>
    simp only [Option.any_some]
    cases l.isOwing x.arq.config.windowSize x.arq.slot with
    | true => rfl
    | false => simp [Call.outward_apply, hrlc]

theorem isIn_below (phy : Seat PhyLayer) (x : Upper) : x.IsIn (x.below phy) := ⟨rfl, rfl⟩

theorem net_request (x : Upper) (bits : Nat) (dest : Address) :
    (x.request bits dest).2.net = x.net := by
  unfold request
  repeat' split
  all_goals rfl

/-- What the MAC is answered when it asks for a packet. -/
theorem request_around (phy : Seat PhyLayer) (x : Upper) (bits : Nat) (dest : Address) :
    ArqAbove.request bits dest (x.around phy) =
      ((x.request bits dest).1, (x.request bits dest).2.around phy) := by
  rw [request_apply, (isIn_below phy x).requestBurst_arq, around, net_request]
  rfl

theorem hasMore_around (phy : Seat PhyLayer) (x : Upper) (dest : Address) :
    ArqAbove.hasMore dest (x.around phy) = (.ok (x.hasMore dest), x.around phy) := by
  have hcall : ArqAbove.hasMore dest (x.around phy) =
      match SelectiveRepeat.hasMore dest ⟨x.arq, x.below phy⟩ with
      | (r, after) => (r, { after.around with
        arq := after.around.arq.leave (.selective after.layer) }) := rfl
  rw [hcall, (isIn_below phy x).hasMore_arq]
  rfl

/-! ## In order -/

/-- The RLC is in order, and each link holds what it may hold; only that is to be sent again. -/
structure IsOrderly (x : Upper) : Prop where
  rlc : x.rlc.IsOrderly
  window : 0 < x.arq.config.windowSize
  holds : ∀ id, (x.arq.link id).Holds (x.arq.MayHold id)
  asks : ∀ id, (x.arq.link id).AsksHeld

theorem IsOrderly.holdsSized (h : x.IsOrderly) : x.arq.HoldsSized :=
  fun id f hf => (h.holds id f hf).isSized

/-- One link may be changed as long as what it holds is as it is to be. -/
theorem IsOrderly.setLink (h : x.IsOrderly) {l : Link} (hholds : l.Holds (x.arq.MayHold dest))
    (hasks : l.AsksHeld) : IsOrderly { x with arq := x.arq.setLink dest l } := by
  refine ⟨h.rlc, h.window, fun id f hf => ?_, fun id => ?_⟩
  · change f ∈ ((x.arq.setLink dest l).link id).unacked at hf
    rw [SelectiveRepeat.link_setLink] at hf
    split at hf
    · next heq =>
      obtain ⟨hp, hframe, hsized⟩ := heq ▸ hholds f hf
      exact ⟨hp, hframe, hsized⟩
    · obtain ⟨hp, hframe, hsized⟩ := h.holds id f hf
      exact ⟨hp, hframe, hsized⟩
  · show ((x.arq.setLink dest l).link id).AsksHeld
    rw [SelectiveRepeat.link_setLink]
    split
    · exact hasks
    · exact h.asks id

theorem IsOrderly.setRlc (h : x.IsOrderly) {rlc : SegmentingRlc} (hrlc : rlc.IsOrderly) :
    IsOrderly { x with rlc } :=
  ⟨hrlc, h.window, h.holds, h.asks⟩

theorem isSymbolic_of_isProtected {a : SelectiveRepeat} (h : a.isProtected dest = true) :
    dest.isSymbolic = false := by
  rw [SelectiveRepeat.isProtected, Bool.and_eq_true, Bool.not_eq_true'] at h
  exact h.2

theorem dest_of_ackHeader {l : Link} {window : Nat} {header : UnicastHeader}
    (h : l.ackHeader dest window = .ok header) : header.dest = dest := by
  rw [Link.ackHeader_eq_ok h]
  rfl

/-- What is filled for a protected station is numbered if it is a frame, and may carry an
acknowledgement otherwise. -/
theorem IsOrderly.sequence (h : x.IsOrderly) (hp : x.arq.isProtected dest = true)
    {packet out : Packet} (hsized : packet.IsSized) (hpacket : packet = .empty ∨
      ∃ pieces, packet = SegmentingRlc.packed dest pieces) {arq : SelectiveRepeat}
    (hseq : x.arq.sequence packet bits dest = .ok (out, arq)) :
    IsOrderly { x with arq } ∧ out.Suits dest ∧
      (out = .empty ∨ out.shape.head? = some .base) := by
  have hdest := isSymbolic_of_isProtected hp
  unfold SelectiveRepeat.sequence at hseq
  cases hdata : packet.unicastHeaders.isEmpty with
  | false =>
    simp only [hdata, Bool.false_eq_true, if_false] at hseq
    cases hseq
    have hframe : packet.IsFrameFor dest := by
      rcases hpacket with rfl | ⟨pieces, rfl⟩
      · cases hdata
      · refine SegmentingRlc.isFrameFor_packed hdest fun hnil => ?_
        rw [hnil] at hdata
        cases hdata
    have hnew := hframe.mapUnicast (f := (x.arq.link dest).stamp (x.arq.link dest).nextSeq
      x.arq.config.windowSize) fun _ => rfl
    have hmay : x.arq.MayHold dest packet := ⟨hp, hframe, hsized⟩
    exact ⟨h.setLink ((h.holds dest).send (hmay.stamp _ _ _) x.arq.resendAt)
      ((h.asks dest).send packet x.arq.resendAt), Or.inr (Or.inl hnew), Or.inr hnew.lead⟩
  | true =>
    simp only [hdata, if_true] at hseq
    rcases SelectiveRepeat.acknowledge_eq_ok hseq with ⟨rfl, rfl⟩ | ⟨header, hheader, hadd, rfl⟩
    · refine ⟨h.setLink (h.holds dest) (h.asks dest), ?_⟩
      rcases hpacket with rfl | ⟨pieces, rfl⟩
      · exact ⟨Or.inr (Or.inr nofun), Or.inl rfl⟩
      · refine ⟨SegmentingRlc.suits_packed (Or.inl (Or.inr (Or.inr hdest))), Or.inr ?_⟩
        exact SegmentingRlc.lead_packed dest pieces
    · have hframe : out.IsFrameFor dest := by
        rcases hpacket with rfl | ⟨pieces, rfl⟩
        · cases hadd
        · cases pieces with
          | nil => exact Packet.isFrameFor_acknowledged hdest (dest_of_ackHeader hheader) hadd
          | cons piece rest =>
            have hdata' := (SegmentingRlc.isFrameFor_packed hdest
              (List.cons_ne_nil piece rest)).toIsFrame.unicastHeaders
            rw [hdata] at hdata'
            cases hdata'
      exact ⟨h.setLink (l := { x.arq.link dest with isAckPending := false }) (h.holds dest)
        (h.asks dest), Or.inr (Or.inl hframe), Or.inr hframe.lead⟩

theorem IsOrderly.keeps_request (h : x.IsOrderly) (hbits : bits ≤ Word.highest) (dest : Address) :
    KeepsFor bits dest (x.rlc.build bits dest).1 ∧ Keeps bits (x.request bits dest).1 := by
  have hrlc := (h.rlc.holdsSized.requestBurst (s := ⟨x.rlc, ()⟩) hbits dest 0).1
  rw [SegmentingRlc.requestBurst_eq_build] at hrlc
  have hin := isIn_below .entered x
  have hbuilt : KeepsFor bits dest (RlcAbove.requestBurst bits dest 0 (x.below .entered)).1 := by
    rw [hin.requestBurst_rlc]
    exact hrlc
  have hkeeps := (SelectiveRepeat.HoldsSized.requestBurst (s := ⟨x.arq, x.below .entered⟩)
    h.holdsSized hbits hbuilt).1
  rw [hin.requestBurst_arq] at hkeeps
  exact ⟨hrlc, hkeeps⟩

/-- **One request.** It leaves the layers in order, and what is built for a destination suits it and has
a base header in front, if there is anything in it. -/
theorem IsOrderly.request (h : x.IsOrderly) (hbits : bits ≤ Word.highest) (dest : Address) :
    (x.request bits dest).2.IsOrderly ∧ ∀ packet, (x.request bits dest).1 = .ok packet →
      packet.Suits dest ∧ (packet = .empty ∨ packet.shape.head? = some .base) := by
  obtain ⟨hrlc, hbuilt⟩ := h.rlc.build bits dest
  have hwithin := (h.keeps_request hbits dest).1.within
  unfold Upper.request
  by_cases hp : x.arq.isProtected dest = true
  · rw [if_pos hp]
    split
    · exact ⟨h, fun packet hpacket => by cases hpacket⟩
    · next packet arq hres =>
      obtain ⟨l, hl, rfl⟩ := SelectiveRepeat.resend_eq_some_iff.1 hres
      obtain ⟨hholds, held, seq, hheld, rfl⟩ := (h.holds dest).resend hl
      refine ⟨h.setLink hholds ((h.asks dest).resend hl), fun p hpacket => ?_⟩
      cases hpacket
      have hagain := (hheld.stamp (x.arq.link dest) seq x.arq.config.windowSize).isFrame
      exact ⟨Or.inr (Or.inl hagain), Or.inr hagain.lead⟩
    · rcases hbuild : x.rlc.build bits dest with ⟨e | packet, rlc⟩
      · rw [hbuild] at hrlc
        exact ⟨h.setRlc hrlc, fun packet hpacket => by cases hpacket⟩
      · rw [hbuild] at hrlc hbuilt hwithin
        have hpacket : packet = .empty ∨ ∃ pieces, packet = SegmentingRlc.packed dest pieces := by
          rcases hbuilt packet rfl with hempty | ⟨-, rfl⟩ | ⟨pieces, hpacked, -⟩
          · exact Or.inl hempty
          · cases isSymbolic_of_isProtected hp
          · exact Or.inr ⟨pieces, hpacked⟩
        have hsized : packet.IsSized := Nat.le_trans (hwithin packet rfl) hbits
        simp only
        split
        · exact ⟨h.setRlc hrlc, fun packet hpacket => by cases hpacket⟩
        · next out arq hseq =>
          obtain ⟨horderly, hsuits⟩ := (h.setRlc hrlc).sequence hp hsized hpacket hseq
          refine ⟨horderly, fun p hp => ?_⟩
          cases hp
          exact hsuits
  · rw [if_neg hp]
    refine ⟨h.setRlc hrlc, fun packet hpacket => ?_⟩
    rcases hbuilt packet hpacket with rfl | ⟨hcontrol, -⟩ | ⟨pieces, rfl, hpieces⟩
    · exact ⟨Or.inr (Or.inr nofun), Or.inl rfl⟩
    · exact ⟨Or.inl hcontrol, Or.inr hcontrol.lead⟩
    · exact ⟨SegmentingRlc.suits_packed hpieces, Or.inr (SegmentingRlc.lead_packed dest pieces)⟩

end Upper

end DataLink
