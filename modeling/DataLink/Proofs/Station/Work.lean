import DataLink.Proofs.Station.Links

/-!
# Reported work and available work

Whoever has the turn is served only if the layers above the MAC report that they have anything to send
to it. Whether they do is for the ARQ to say, and then for the RLC; what they build when a packet is
asked for is decided by other tests, in another order.

With enough bits for whatever waits, the two agree for a station whose frames are protected
(`Upper.IsOrderly.request_protected`): there is a frame to be sent again, or a segment in the queue, or an
acknowledgement to be given in a header of its own. For any other destination the RLC builds packets by
itself, and an acknowledgement is not given. But the ARQ also notes that it owes one to whoever sent a
numbered frame, protected or not, and reports that.

**Theorem (`Station.hasMore_iff_request`).** In every state of a run, what is reported for a destination is
what can be built for it, unless it is not protected and nothing but an acknowledgement is owed to it, or
datagrams are queued for it that no header can carry.
-/

namespace DataLink

/-! ## The RLC -/

namespace SegmentingRlc

variable {r : SegmentingRlc} {bits : Nat} {dest : Address}

theorem cut_ne_nil {header room : Nat} (hroom : header < room) {items : List (Nat × Outgoing)}
    (hitems : items ≠ []) : (cut header room items).1 ≠ [] := by
  cases items with
  | nil => exact absurd rfl hitems
  | cons first rest =>
    obtain ⟨priority, o⟩ := first
    have hneed : ¬ room < o.need header := by
      unfold Outgoing.need
      split <;> omega
    rw [cut, if_neg hneed]
    simp only
    split
    · exact List.cons_ne_nil _ _
    · exact List.cons_ne_nil _ _

theorem headerWidth_le_unicast (dest : Address) : headerWidth dest ≤ Width.unicast := by
  unfold headerWidth
  split <;> decide

theorem IsOrderly.contains_queues (h : r.IsOrderly) (dest : Address) :
    r.queues.contains dest = true ↔ (r.queue dest).items ≠ [] := by
  rw [Table.contains, queue]
  cases hget : r.queues.get? dest with
  | none => exact ⟨fun hcontains => (by cases hcontains), fun hne => absurd rfl hne⟩
  | some q => exact ⟨fun _ => h.queued dest q hget, fun _ => rfl⟩

theorem IsOrderly.build_of_injected (h : r.IsOrderly) (hbits : Width.base + Width.link ≤ bits)
    (hdest : r.injected.contains dest = true) :
    ∃ packet, (r.build bits dest).1 = .ok packet ∧ 1 < packet.size := by
  obtain ⟨waiting, hget⟩ := Option.isSome_iff_exists.1 hdest
  obtain ⟨-, hne, hcontrol⟩ := h.control dest waiting hget
  obtain ⟨first, rest, hitems⟩ := List.exists_cons_of_ne_nil hne
  have hfirst := hcontrol first (by rw [hitems]; exact List.mem_cons_self)
  have hfront : (r.injectedFor dest).front? = some first.2 := by
    rw [SegmentingRlc.injectedFor, hget, PriorityQueue.front?, Option.getD_some, hitems]
    rfl
  have hlength : first.2.bits = .ok (Width.base + Width.link) := by
    rw [Packet.bits, hfirst.length]
    rfl
  have hroom : ¬ bits < Width.base := by
    rw [Nat.not_lt]
    exact Nat.le_trans (Nat.le_add_right _ _) hbits
  refine ⟨first.2, ?_, by rw [hfirst.size]; decide⟩
  unfold SegmentingRlc.build SegmentingRlc.popInjected
  rw [if_neg hroom, hfront]
  simp only [hlength, bind, Except.bind, if_neg (Nat.not_lt.2 hbits)]
  rfl

theorem IsOrderly.build_of_not_injected (h : r.IsOrderly) (hbits : Width.base + Width.link ≤ bits)
    (hdest : r.injected.contains dest = false) (hcarried : IsCarried dest) :
    ∃ pieces, (r.build bits dest).1 = .ok (packed dest pieces) ∧
      (pieces ≠ [] ↔ r.hasMore dest = true) := by
  have hnone : r.popInjected bits dest = .ok none := by
    have hget : r.injected.get? dest = none := by
      rwa [Table.contains, Option.isSome_eq_false_iff, Option.isNone_iff_eq_none] at hdest
    rw [SegmentingRlc.popInjected, SegmentingRlc.injectedFor, hget]
    rfl
  have hroom : ¬ bits < Width.base := by
    rw [Nat.not_lt]
    exact Nat.le_trans (Nat.le_add_right _ _) hbits
  refine ⟨(r.cutFor bits dest).1, ?_, ?_⟩
  · unfold SegmentingRlc.build
    rw [if_neg hroom, hnone, fill_eq hcarried]
  · have hheader : headerWidth dest < bits - Width.base := by
      have hwidth := headerWidth_le_unicast dest
      have hlink : Width.unicast < Width.link := by decide
      omega
    rw [hasMore, hdest, Bool.or_false, h.contains_queues]
    constructor
    · rintro hpieces hitems
      rw [cutFor, hitems] at hpieces
      exact hpieces rfl
    · exact cut_ne_nil hheader

/-- Nothing is built for a destination that no header can carry segments to. -/
theorem IsOrderly.size_le_one_of_build (h : r.IsOrderly) (hdest : ¬ IsCarried dest) {packet : Packet}
    (hpacket : (r.build bits dest).1 = .ok packet) : packet.size ≤ 1 := by
  rcases (h.build bits dest).2 packet hpacket with rfl | ⟨-, rfl⟩ | ⟨pieces, rfl, hpieces⟩
  · exact Nat.zero_le 1
  · exact absurd (Or.inl rfl) hdest
  · rw [hpieces.resolve_left hdest]
    exact Nat.le_refl 1

theorem size_packed (dest : Address) (pieces : List (Fragment × Segment)) :
    (packed dest pieces).size = pieces.length + 1 := by
  rw [packed, Packet.size, Packet.ofMessages, List.length_cons, List.length_map]

theorem IsOrderly.build_iff (h : r.IsOrderly) (hbits : Width.base + Width.link ≤ bits) :
    (∃ packet, (r.build bits dest).1 = .ok packet ∧ 1 < packet.size) ↔
      r.hasMore dest = true ∧ IsCarried dest := by
  by_cases hcarried : IsCarried dest
  · cases hinjected : r.injected.contains dest with
    | true =>
      have hmore : r.hasMore dest = true := by rw [hasMore, hinjected, Bool.or_true]
      exact ⟨fun _ => ⟨hmore, hcarried⟩, fun _ => h.build_of_injected hbits hinjected⟩
    | false =>
      obtain ⟨pieces, hbuild, hpieces⟩ := h.build_of_not_injected hbits hinjected hcarried
      rw [← hpieces]
      constructor
      · rintro ⟨packet, hpacket, hsize⟩
        obtain rfl : packed dest pieces = packet := Except.ok.inj (hbuild.symm.trans hpacket)
        rw [size_packed] at hsize
        exact ⟨List.ne_nil_of_length_pos (Nat.lt_of_succ_lt_succ hsize), hcarried⟩
      · rintro ⟨hne, -⟩
        refine ⟨_, hbuild, ?_⟩
        rw [size_packed]
        exact Nat.succ_lt_succ (List.length_pos_of_ne_nil hne)
  · constructor
    · rintro ⟨packet, hpacket, hsize⟩
      exact absurd (h.size_le_one_of_build hcarried hpacket) (Nat.not_le_of_lt hsize)
    · rintro ⟨-, h⟩
      exact absurd h hcarried

end SegmentingRlc

/-! ## The ARQ -/

namespace Link

variable {l : Link} {window slot bits : Nat}

theorem nextToResend?_fresh (window slot : Nat) : fresh.nextToResend? window slot = none :=
  ite_self none

theorem resend_of_none (h : l.nextToResend? window slot = none) (resendAt bits : Nat) :
    l.resend window slot resendAt bits = .ok none := by
  rw [resend, h]

theorem AsksHeld.exists_resend (h : l.AsksHeld)
    (hheld : ∀ f ∈ l.unacked, f.packet.IsSized ∧ f.packet.length ≤ bits) {seq : SequenceNumber}
    (hnext : l.nextToResend? window slot = some seq) (resendAt : Nat) :
    ∃ packet after, l.resend window slot resendAt bits = .ok (some (packet, after)) := by
  obtain ⟨frame, hfind⟩ := h.exists_find hnext
  obtain ⟨hsized, hlength⟩ := hheld frame (List.mem_of_find?_eq_some hfind)
  have hbits : frame.packet.bits = .ok frame.packet.length := by
    rw [Packet.bits, if_pos (Word.fits_iff.2 hsized)]
  unfold Link.resend
  simp only [hnext, hfind, hbits, bind, Except.bind, if_neg (Nat.not_lt.2 hlength)]
  exact ⟨_, _, rfl⟩

end Link

namespace SelectiveRepeat

variable {a : SelectiveRepeat} {bits : Nat} {dest : Address}

theorem acknowledge_of_not_pending (h : (a.link dest).isAckPending = false) (packet : Packet)
    (bits : Nat) : a.acknowledge packet bits dest = .ok (packet, a.setLink dest (a.link dest)) := by
  simp only [acknowledge, h, Bool.false_and, Bool.false_eq_true, if_false]

theorem exists_acknowledge_blank (hdest : dest.isSymbolic = false)
    (hbits : Width.base + Width.unicast ≤ bits) (hpending : (a.link dest).isAckPending = true) :
    ∃ out after, a.acknowledge SegmentingRlc.blank bits dest = .ok (out, after) ∧ 1 < out.size := by
  obtain ⟨header, hheader, hname⟩ : ∃ header,
      (a.link dest).ackHeader dest a.config.windowSize = .ok header ∧ header.dest = dest := by
    refine ⟨(a.link dest).stamp .unset a.config.windowSize { (default : UnicastHeader) with dest },
      ?_, rfl⟩
    rw [Link.ackHeader, UnicastHeader.to?, hdest]
    rfl
  have hnext : Packet.checkNext SegmentingRlc.blank.headers (.unicast header) = .ok () := by
    simp only [SegmentingRlc.blank, Packet.headers, Packet.ofMessages, List.filterMap_cons,
      List.filterMap_nil, Packet.checkNext, hname, hdest]
    rfl
  have hadd := (Packet.add_eq_ok_iff (p := SegmentingRlc.blank)
    (m := ⟨some (.unicast header), none⟩)).2 ⟨rfl, fun h hh => by cases hh; exact hnext⟩
  have hlength : SegmentingRlc.blank.bits = .ok Width.base := rfl
  have hsum : checkedSum Width.base Width.unicast = .ok (Width.base + Width.unicast) := rfl
  have hempty : SegmentingRlc.blank.isEmpty = false := rfl
  unfold acknowledge
  simp only [hpending, hempty, hlength, hsum, hheader, hadd, bind, Except.bind, mapError_ok,
    Bool.not_false, Bool.and_self, if_true, if_neg (Nat.not_lt.2 hbits)]
  exact ⟨_, _, rfl, Nat.lt_succ_self 1⟩

/-- There is anything in what the RLC filled for a station once it is sequenced, if segments are, or if
an acknowledgement is owed. -/
theorem exists_sequence_packed (hdest : dest.isSymbolic = false)
    (hbits : Width.base + Width.unicast ≤ bits) (pieces : List (Fragment × Segment)) :
    ∃ out after, a.sequence (SegmentingRlc.packed dest pieces) bits dest = .ok (out, after) ∧
      (1 < out.size ↔ (a.link dest).isAckPending = true ∨ pieces ≠ []) := by
  unfold sequence
  by_cases hpieces : pieces = []
  · have hblank : SegmentingRlc.packed dest pieces = SegmentingRlc.blank := by
      rw [hpieces]
      rfl
    have hsilent : SegmentingRlc.blank.unicastHeaders.isEmpty = true := rfl
    rw [hblank, hsilent, if_pos rfl]
    cases hpending : (a.link dest).isAckPending with
    | true =>
      obtain ⟨out, after, hack, hsize⟩ := exists_acknowledge_blank hdest hbits hpending
      exact ⟨out, after, hack, by simp [hsize]⟩
    | false =>
      exact ⟨_, _, acknowledge_of_not_pending hpending _ bits,
        fun hsize => absurd hsize (Nat.lt_irrefl 1), by simp [hpieces]⟩
  · have hdata : (SegmentingRlc.packed dest pieces).unicastHeaders.isEmpty = false :=
      (SegmentingRlc.isFrameFor_packed hdest hpieces).toIsFrame.unicastHeaders
    have hsize : 1 < (SegmentingRlc.packed dest pieces).size := by
      rw [SegmentingRlc.size_packed]
      exact Nat.succ_lt_succ (List.length_pos_of_ne_nil hpieces)
    rw [if_neg (by simp [hdata])]
    exact ⟨_, _, rfl, fun _ => Or.inr hpieces, fun _ =>
      (Packet.size_mapUnicast _ (SegmentingRlc.packed dest pieces)).symm ▸ hsize⟩

end SelectiveRepeat

namespace Upper

variable {x : Upper} {bits : Nat} {dest : Address}

theorem hasMore_eq (hwindow : 0 < x.arq.config.windowSize) (dest : Address) :
    x.hasMore dest = ((x.arq.link dest).isAckPending ||
      ((x.arq.link dest).nextToResend? x.arq.config.windowSize x.arq.slot).isSome ||
        x.rlc.hasMore dest) := by
  rw [hasMore, SelectiveRepeat.link]
  cases x.arq.links.get? dest with
  | none =>
    rw [Option.getD_none, Link.nextToResend?_fresh]
    rfl
  | some l =>
    rw [Option.any_some, Option.getD_some, Link.isOwing_eq hwindow]

theorem IsOrderly.contains_injected (h : x.IsOrderly) (hdest : dest.isSymbolic = false) :
    x.rlc.injected.contains dest = false := by
  rw [Bool.eq_false_iff]
  intro hcontains
  obtain ⟨waiting, hget⟩ := Option.isSome_iff_exists.1 hcontains
  obtain ⟨rfl, -⟩ := h.rlc.control dest waiting hget
  cases hdest

theorem IsOrderly.request_protected (h : x.IsOrderly) (hp : x.arq.isProtected dest = true)
    (hbits : Width.base + Width.link ≤ bits)
    (hheld : ∀ f ∈ (x.arq.link dest).unacked, f.packet.length ≤ bits) :
    (∃ packet, (x.request bits dest).1 = .ok packet ∧ 1 < packet.size) ↔ x.hasMore dest = true := by
  have hdest := isSymbolic_of_isProtected hp
  rw [hasMore_eq h.window, Upper.request, if_pos hp]
  cases hnext : (x.arq.link dest).nextToResend? x.arq.config.windowSize x.arq.slot with
  | some seq =>
    obtain ⟨packet, l, hres⟩ := (h.asks dest).exists_resend
      (fun f hf => ⟨(h.holds dest f hf).isSized, hheld f hf⟩) hnext x.arq.resendAt
    obtain ⟨-, held, again, hmay, rfl⟩ := (h.holds dest).resend hres
    rw [SelectiveRepeat.resend_eq_some_iff.2 ⟨l, hres, rfl⟩]
    have hsize := (hmay.stamp (x.arq.link dest) again x.arq.config.windowSize).isFrame.one_lt_size
    simp [hsize]
  | none =>
    have hres := SelectiveRepeat.resend_eq_none_iff.2
      (Link.resend_of_none hnext x.arq.resendAt bits)
    obtain ⟨pieces, hbuild, hpieces⟩ := h.rlc.build_of_not_injected hbits (h.contains_injected hdest)
      (Or.inr (Or.inr hdest))
    obtain ⟨out, arq, hseq, hsize⟩ := SelectiveRepeat.exists_sequence_packed (a := x.arq) hdest
      (Nat.le_trans (by decide) hbits) pieces
    rcases hanswer : x.rlc.build bits dest with ⟨result, rlc⟩
    obtain rfl : result = .ok (SegmentingRlc.packed dest pieces) := by rw [← hbuild, hanswer]
    simp [hres, hseq, hsize, hpieces]

/-- Links to stations that are not protected hold nothing, so only an acknowledgement can be owed. -/
theorem IsOrderly.hasMore_unprotected (h : x.IsOrderly) (hp : x.arq.isProtected dest = false) :
    x.hasMore dest = ((x.arq.link dest).isAckPending || x.rlc.hasMore dest) := by
  rw [hasMore_eq h.window]
  cases hnext : (x.arq.link dest).nextToResend? x.arq.config.windowSize x.arq.slot with
  | none => rw [Option.isSome_none, Bool.or_false]
  | some seq =>
    obtain ⟨frame, hfind⟩ := (h.asks dest).exists_find hnext
    have hheld := (h.holds dest frame (List.mem_of_find?_eq_some hfind)).isProtected
    rw [hp] at hheld
    cases hheld

/-- What is reported for a destination that is not protected can be built for it, unless nothing but an
acknowledgement is owed to it, or datagrams are queued that no header can carry. -/
theorem IsOrderly.request_unprotected (h : x.IsOrderly) (hp : x.arq.isProtected dest = false)
    (hbits : Width.base + Width.link ≤ bits) :
    (∃ packet, (x.request bits dest).1 = .ok packet ∧ 1 < packet.size) ↔
      x.rlc.hasMore dest = true ∧ SegmentingRlc.IsCarried dest := by
  rw [Upper.request, if_neg (by simp [hp])]
  exact h.rlc.build_iff hbits

end Upper

/-! ## Stations -/

namespace Station

/-- The ARQ is asked whether there is anything to send to `dest`. -/
def hasMore (dest : Address) : Call Station Bool := Place.arq.enter (ArqLayer.hasMore dest)

/-- The ARQ is asked for a packet for `dest`. -/
def request (bits : Nat) (dest : Address) : Call Station Packet :=
  Place.arq.enter (ArqLayer.request bits dest)

/-- Datagrams are queued for `dest`, or control packets. -/
def isQueued (dest : Address) (s : Station) : Bool :=
  (s.rlc.idle?.bind RlcLayer.segmenting?).any fun r => r.hasMore dest

/-- Frames for `dest` are numbered and acknowledged. -/
def isProtected (dest : Address) (s : Station) : Bool :=
  (s.arq.idle?).any fun a => a.isProtected dest

/-- An acknowledgement is owed to a destination that is not protected, and nothing else is to be sent. -/
def owesInVain (dest : Address) (s : Station) : Bool :=
  !s.isProtected dest && (s.link dest).isAckPending && !s.isQueued dest

variable {config : StationConfig} {s : Station}

theorem hasMore_apply (x : Upper) (m : SlotMac) (p : OutboxPhy) (dest : Address) :
    (hasMore dest (x.station m p)).1 = .ok (x.hasMore dest) := by
  have hin : x.IsIn { x.station m p with arq := .entered } := ⟨rfl, rfl⟩
  have hcall : (hasMore dest (x.station m p)).1 =
      (SelectiveRepeat.hasMore dest ⟨x.arq, { x.station m p with arq := .entered }⟩).1 := rfl
  rw [hcall, hin.hasMore_arq]

theorem request_apply (x : Upper) (m : SlotMac) (p : OutboxPhy) (bits : Nat) (dest : Address) :
    (request bits dest (x.station m p)).1 = (x.request bits dest).1 := by
  have hin : x.IsIn { x.station m p with arq := .entered } := ⟨rfl, rfl⟩
  have hcall : (request bits dest (x.station m p)).1 = (SelectiveRepeat.requestBurst bits dest 0
      ⟨x.arq, { x.station m p with arq := .entered }⟩).1 := rfl
  rw [hcall, hin.requestBurst_arq]

/-- **Reported and available work.** With enough bits for whatever waits, the layers above the MAC report
that they have anything to send if and only if they build something, unless they owe an acknowledgement
in vain, or datagrams are queued that no header can carry. -/
theorem hasMore_iff_request (hs : ofConfig config = .ok s) (calls : List StationCall) (dest : Address)
    {bits : Nat} (hbits : 200 ≤ bits)
    (hheld : ∀ f ∈ ((s.run calls).link dest).unacked, f.packet.length ≤ bits) :
    let t := s.run calls
    ∃ more, (hasMore dest t).1 = .ok more ∧
      ((more = true ↔ ∃ packet, (request bits dest t).1 = .ok packet ∧ 1 < packet.size) ↔
        ¬ (t.owesInVain dest = true ∨ ¬ SegmentingRlc.IsCarried dest ∧ t.isQueued dest = true)) := by
  obtain ⟨m, x, p, hrun, -, -, hinOrder⟩ := inOrder_run hs calls
  intro t
  rw [show t = x.station m p from hrun]
  rw [hrun] at hheld
  have hx := hinOrder.upper
  have henough : Width.base + Width.link ≤ bits := Nat.le_trans (by decide) hbits
  refine ⟨x.hasMore dest, hasMore_apply x m p dest, ?_⟩
  rw [request_apply]
  change _ ↔ ¬ ((!x.arq.isProtected dest && (x.arq.link dest).isAckPending &&
    !x.rlc.hasMore dest) = true ∨ ¬ SegmentingRlc.IsCarried dest ∧ x.rlc.hasMore dest = true)
  cases hp : x.arq.isProtected dest with
  | true =>
    have hcarried : SegmentingRlc.IsCarried dest :=
      Or.inr (Or.inr (Upper.isSymbolic_of_isProtected hp))
    simp [hx.request_protected hp henough hheld, hcarried]
  | false =>
    rw [hx.request_unprotected hp henough, hx.hasMore_unprotected hp]
    cases x.rlc.hasMore dest <;> cases (x.arq.link dest).isAckPending <;> simp

/-- A numbered frame of station 2 for station 1, with nothing in it. -/
def numbered : Transmission :=
  ⟨SlotMac.heard ⟨2⟩ (.unicast { SlotMac.toFirst with useArq := true, seq := .first }), 0⟩

/-- A frame is not acknowledged yet and not due, and an acknowledgement is owed: it is reported, and a
packet with it is built. -/
theorem hasMore_iff_request_owing :
    (((made ofFirst).run (granted ++ [.update, .receive numbered])).link ⟨2⟩).unacked.length = 1 ∧
      (hasMore ⟨2⟩ ((made ofFirst).run (granted ++ [.update, .receive numbered]))).1 = .ok true ∧
      ∃ packet, (request 200 ⟨2⟩
          ((made ofFirst).run (granted ++ [.update, .receive numbered]))).1 = .ok packet ∧
        1 < packet.size := by
  obtain ⟨more, hmore, hagree⟩ :=
    hasMore_iff_request (show ofConfig ofFirst = .ok (made ofFirst) from rfl)
      (granted ++ [.update, .receive numbered]) ⟨2⟩ (Nat.le_refl 200) (by decide +kernel)
  have hreported :
      (hasMore ⟨2⟩ ((made ofFirst).run (granted ++ [.update, .receive numbered]))).1 = .ok true := by
    decide +kernel
  obtain rfl : more = true := Except.ok.inj (hmore.symm.trans hreported)
  exact ⟨by decide +kernel, hreported, (hagree.2 (by decide +kernel)).1 rfl⟩

/-- `dest` has its turns in the schedule. -/
def takesTurns (dest : Address) (s : Station) : Bool :=
  s.slotMac?.any fun m => m.schedule.contains dest

/-- Settings of station 1 without protection. -/
def ofUnprotected : StationConfig :=
  { ofFirst with arq := { (default : ArqConfig) with protectUnicast := false } }

/-- Station 2 asks for a link, and sends a numbered frame. -/
def asking : List StationCall :=
  [.receive ⟨SlotMac.heard ⟨2⟩ (.linkRequest SlotMac.toFirst default), 0⟩, .receive numbered]

/-- An acknowledgement that is owed without protection is reported, and nothing is built for it. -/
theorem not_hasMore_iff_request_unprotected :
    ¬ (∀ (config : StationConfig) (s : Station) (calls : List StationCall) (dest : Address)
        (bits : Nat), ofConfig config = .ok s → (s.run calls).takesTurns dest = true → 200 ≤ bits →
        (∀ f ∈ ((s.run calls).link dest).unacked, f.packet.length ≤ bits) →
          ((hasMore dest (s.run calls)).1 = .ok true ↔
            ∃ packet, (request bits dest (s.run calls)).1 = .ok packet ∧ 1 < packet.size)) ∧
      (hasMore ⟨2⟩ ((made ofUnprotected).run asking)).1 = .ok true ∧
      (request 200 ⟨2⟩ ((made ofUnprotected).run asking)).1 = .ok SegmentingRlc.blank := by
  have hreported : (hasMore ⟨2⟩ ((made ofUnprotected).run asking)).1 = .ok true := by decide +kernel
  have hbuilt : (request 200 ⟨2⟩ ((made ofUnprotected).run asking)).1 = .ok SegmentingRlc.blank := by
    decide +kernel
  refine ⟨fun h => ?_, hreported, hbuilt⟩
  obtain ⟨packet, hpacket, hsize⟩ := (h ofUnprotected (made ofUnprotected) asking ⟨2⟩ 200 rfl
    (by decide +kernel) (Nat.le_refl 200) (by decide +kernel)).1 hreported
  obtain rfl : SegmentingRlc.blank = packet := Except.ok.inj (hbuilt.symm.trans hpacket)
  exact absurd hsize (Nat.lt_irrefl 1)

end Station

end DataLink
