import DataLink.Proofs.Basic
import DataLink.Proofs.Packet
import DataLink.Rlc.Segmenting

/-!
# What a filled packet carries

The packets that an RLC builds for a destination are a base header and, for every piece that was cut,
one message. `fill_eq` says so for every destination that has a *carrier*, which is a kind of header
that segments for it travel on; the others (`unset`, `dme` and the symbolic addresses without a name)
have none. On the other side, `segments_packed` says that a receiver reads the same pieces out of the
packet again, all on one channel.
-/

namespace DataLink

namespace SegmentingRlc

/-! ## Carriers -/

/-- Segments for `dest` have a header to travel on. -/
def IsCarried (dest : Address) : Prop :=
  dest = .broadcast ∨ dest = .beacon ∨ dest.isSymbolic = false

instance (dest : Address) : Decidable (IsCarried dest) := by
  unfold IsCarried
  infer_instance

/-- The header that carries a segment for `dest`. -/
def carrier (dest : Address) (fragment : Fragment) : Header :=
  if dest = .broadcast ∨ dest = .beacon then .broadcast fragment
  else .unicast { (default : UnicastHeader) with dest, fragment }

/-- The channel on which segments for `dest` arrive. -/
def channelOf (dest : Address) : Address :=
  if dest = .broadcast ∨ dest = .beacon then .broadcast else dest

theorem segmentHeader_eq {dest : Address} (h : IsCarried dest) (fragment : Fragment) :
    segmentHeader dest fragment = .ok (carrier dest fragment) := by
  unfold segmentHeader carrier
  split
  · rfl
  · have hs : dest.isSymbolic = false := by
      rcases h with h | h | h <;> simp_all
    simp [UnicastHeader.to?, hs]

theorem segmentHeader_eq_error {dest : Address} (h : ¬ IsCarried dest) (fragment : Fragment) :
    segmentHeader dest fragment = .error (.header (.invalidDestination dest)) := by
  rw [IsCarried, not_or, not_or, Bool.not_eq_false] at h
  rw [segmentHeader, if_neg (not_or.2 ⟨h.1, h.2.1⟩), UnicastHeader.to?, h.2.2]
  rfl

theorem channel?_carrier (dest : Address) (fragment : Fragment) :
    (carrier dest fragment).channel? = some (channelOf dest, fragment) := by
  unfold carrier channelOf
  split <;> rfl

/-- The message that carries one piece. -/
def carry (dest : Address) (piece : Fragment × Segment) : Message :=
  ⟨some (carrier dest piece.1), some (.segment piece.2)⟩

/-- A packet with one message for each piece. -/
def packed (dest : Address) (pieces : List (Fragment × Segment)) : Packet :=
  .ofMessages (⟨some (.base default), none⟩ :: pieces.map (carry dest))

/-! ## Building the packet -/

theorem headers_packed (dest : Address) (pieces : List (Fragment × Segment)) :
    (packed dest pieces).headers = .base default :: pieces.map fun p => carrier dest p.1 := by
  simp only [packed, Packet.headers, Packet.ofMessages, List.filterMap_cons, List.cons.injEq,
    true_and]
  induction pieces with
  | nil => rfl
  | cons p rest ih => simp [carry, ih]

theorem checkNext_packed {dest : Address} (h : IsCarried dest)
    (pieces : List (Fragment × Segment)) (fragment : Fragment) :
    Packet.checkNext (packed dest pieces).headers (carrier dest fragment) = .ok () := by
  rw [headers_packed]
  unfold carrier
  split
  · have hnone : ((Header.base default :: pieces.map fun p => Header.broadcast p.1).any
        fun h => h.frameType.isUnicastFamily) = false := by
      simp [Header.frameType, FrameType.isUnicastFamily]
    simp only [Packet.checkNext, hnone]
    rfl
  · have hs : dest.isSymbolic = false := by
      rcases h with h | h | h <;> simp_all
    cases pieces <;> simp [Packet.checkNext, hs, List.filterMap_cons, Header.unicast?]

theorem addPieces_packed {dest : Address} (h : IsCarried dest)
    (before pieces : List (Fragment × Segment)) :
    addPieces dest pieces (packed dest before) = .ok (packed dest (before ++ pieces)) := by
  induction pieces generalizing before with
  | nil => simp [addPieces]
  | cons p rest ih =>
    obtain ⟨fragment, segment⟩ := p
    have hadd : (packed dest before).add (some (carrier dest fragment)) (some (.segment segment)) =
        .ok (packed dest (before ++ [(fragment, segment)])) := by
      simp only [Packet.add, checkNext_packed h]
      simp [bind, Except.bind, pure, Except.pure, packed, Packet.ofMessages, carry]
    have hstep := ih (before ++ [(fragment, segment)])
    rw [List.append_assoc, List.singleton_append] at hstep
    simp only [addPieces, segmentHeader_eq h, bind, Except.bind, hadd, mapError_ok]
    exact hstep

/-! ## Filling -/

/-- What filling `bits` bits for `dest` cuts, and what stays queued. -/
def cutFor (r : SegmentingRlc) (bits : Nat) (dest : Address) :
    List (Fragment × Segment) × List (Nat × Outgoing) :=
  cut (headerWidth dest) (bits - Width.base) (r.queue dest).items

/-- The RLC with another queue for `dest`. -/
def setQueue (r : SegmentingRlc) (dest : Address) (items : List (Nat × Outgoing)) :
    SegmentingRlc :=
  { r with queues := r.queues.set dest (PriorityQueue.mk items).nonempty? }

/-- What is cut is added to a blank packet, and the rest stays queued. -/
theorem fill_eq_map (r : SegmentingRlc) (bits : Nat) (dest : Address) :
    r.fill bits dest = (addPieces dest (r.cutFor bits dest).1 blank).map fun packet =>
      (packet, r.setQueue dest (r.cutFor bits dest).2) := by
  unfold fill cutFor
  generalize cut (headerWidth dest) (bits - Width.base) (r.queue dest).items = found
  obtain ⟨pieces, queued⟩ := found
  cases hadd : addPieces dest pieces blank <;> simp only [hadd] <;> rfl

theorem fill_eq {dest : Address} (h : IsCarried dest) (r : SegmentingRlc) (bits : Nat) :
    r.fill bits dest =
      .ok (packed dest (r.cutFor bits dest).1, r.setQueue dest (r.cutFor bits dest).2) := by
  rw [fill_eq_map, show blank = packed dest [] from rfl, addPieces_packed h, List.nil_append]
  rfl

/-- Without a carrier, the first piece that is cut makes filling fail. -/
theorem fill_eq_error {dest : Address} (h : ¬ IsCarried dest) {r : SegmentingRlc} {bits : Nat}
    (hpieces : (r.cutFor bits dest).1 ≠ []) :
    r.fill bits dest = .error (.header (.invalidDestination dest)) := by
  rw [fill_eq_map]
  obtain ⟨piece, rest, hcut⟩ := List.exists_cons_of_ne_nil hpieces
  rw [hcut, addPieces, segmentHeader_eq_error h]
  rfl

/-- Filling a packet for one destination takes from its queue alone. -/
theorem fill_eq_ok {r after : SegmentingRlc} {bits : Nat} {dest : Address} {packet : Packet}
    (h : r.fill bits dest = .ok (packet, after)) :
    after = r.setQueue dest (r.cutFor bits dest).2 := by
  obtain ⟨_, -, h⟩ := bind_eq_ok.1 h
  cases h
  rfl

theorem popInjected_eq_some {r after : SegmentingRlc} {bits : Nat} {dest : Address} {packet : Packet}
    (h : r.popInjected bits dest = .ok (some (packet, after))) :
    (r.injectedFor dest).front? = some packet ∧ packet.length ≤ bits ∧ after =
      { r with injected := r.injected.set dest (r.injectedFor dest).popFront.nonempty? } := by
  rw [popInjected] at h
  split at h
  · cases h
  · next front hfront =>
    obtain ⟨n, hlength, h⟩ := bind_eq_ok.1 h
    split at h
    · cases h
    · next hroom =>
      cases h
      obtain rfl := Packet.eq_length_of_bits hlength
      exact ⟨hfront, Nat.le_of_not_lt hroom, rfl⟩

/-- Where nothing is queued, a packet with nothing but its base header is built. -/
theorem fill_nil {dest : Address} {r : SegmentingRlc} (h : (r.queue dest).items = [])
    (bits : Nat) : r.fill bits dest = .ok (blank, r.setQueue dest []) := by
  simp [fill, h, cut, addPieces, setQueue, bind, Except.bind, pure, Except.pure]

theorem queue_setQueue (r : SegmentingRlc) (dest other : Address) (items : List (Nat × Outgoing)) :
    (r.setQueue dest items).queue other = if dest = other then ⟨items⟩ else r.queue other := by
  unfold queue setQueue
  simp only [Table.get?_set]
  split
  · exact PriorityQueue.getD_nonempty? ⟨items⟩
  · rfl

theorem queue_enqueue (r : SegmentingRlc) (datagram : Datagram) (dest other : Address)
    (priority : Nat) : (r.enqueue datagram dest priority).queue other =
      if dest = other then (r.queue dest).push priority (.fresh datagram) else r.queue other := by
  unfold queue enqueue
  simp only [Table.get?_insert]
  split <;> rfl

theorem injectedFor_inject (r : SegmentingRlc) (packet : Packet) (priority : Nat) (key : Address) :
    (r.inject packet priority).injectedFor key =
      if injectionKey packet = key then (r.injectedFor key).push priority packet
      else r.injectedFor key := by
  unfold inject
  rw [injectedFor]
  simp only [Table.get?_insert]
  split
  · next hkey => rw [Option.getD_some, hkey]
  · rfl

theorem injectedFor_set (r : SegmentingRlc) (dest key : Address) (left : PriorityQueue Packet) :
    injectedFor { r with injected := r.injected.set dest left.nonempty? } key =
      if dest = key then left else r.injectedFor key := by
  rw [injectedFor]
  simp only [Table.get?_set]
  split
  · exact PriorityQueue.getD_nonempty? left
  · rfl

/-! ## Reading the packet -/

/-- The segments of a packet, as a receiver reads them. -/
def segmentsOf (packet : Packet) : List (Address × Fragment × Segment) :=
  packet.messages.filterMap Message.segment?

theorem segment?_base (h : BaseHeader) (payload : Option Payload) :
    (⟨some (.base h), payload⟩ : Message).segment? = none := by
  simp [Message.segment?, Header.channel?, Header.unicast?]

theorem segmentsOf_sign (source : Address) (packet : Packet) :
    segmentsOf (packet.sign source) = segmentsOf packet := by
  simp only [segmentsOf, Packet.sign]
  fun_induction Packet.signMessages source packet.messages with
  | case1 => rfl
  | case2 h payload rest => simp [segment?_base]
  | case3 m rest _ ih => simp only [List.filterMap_cons, ih]

theorem segmentsOf_packed (dest : Address) (pieces : List (Fragment × Segment)) :
    segmentsOf (packed dest pieces) = pieces.map fun p => (channelOf dest, p.1, p.2) := by
  have hbase : Message.segment? ⟨some (.base default), none⟩ = none := rfl
  simp only [segmentsOf, packed, Packet.ofMessages, List.filterMap_cons, hbase]
  induction pieces with
  | nil => rfl
  | cons p rest ih =>
    have hp : (carry dest p).segment? = some (channelOf dest, p.1, p.2) := by
      simp [carry, Message.segment?, Payload.segment?, channel?_carrier]
    simp only [List.map_cons, List.filterMap_cons, hp, ih]

theorem origin_sign_packed (source dest : Address) (pieces : List (Fragment × Segment)) :
    ((packed dest pieces).sign source).origin = source := by
  simp [packed, Packet.ofMessages, Packet.sign, Packet.signMessages, Packet.origin, Packet.headers]

/-! ## Sound segments -/

theorem cut_le_highest (header room : Nat) (items : List (Nat × Outgoing)) :
    ∀ piece ∈ (cut header room items).1, piece.2.offset + piece.2.length ≤ Word.highest := by
  have hsegment : ∀ (o : Outgoing) (room : Nat),
      (o.segment room).offset + (o.segment room).length ≤ Word.highest :=
    fun o room => Nat.le_trans (o.advance room).sent_le o.datagram.bits_le
  induction items generalizing room with
  | nil => simp [cut]
  | cons e rest ih =>
    obtain ⟨priority, o⟩ := e
    rw [cut]
    split
    · simp
    · split
      · intro piece hpiece
        rcases List.mem_cons.1 hpiece with rfl | hpiece
        · exact hsegment o _
        · exact ih _ piece hpiece
      · intro piece hpiece
        rw [List.mem_singleton.1 hpiece]
        exact hsegment o _

theorem isBuilt_packed (dest : Address) {pieces : List (Fragment × Segment)}
    (h : ∀ piece ∈ pieces, piece.2.offset + piece.2.length ≤ Word.highest) :
    (packed dest pieces).IsBuilt := by
  refine ⟨Or.inr ?_, ?_⟩
  · rw [Packet.shape, headers_packed]
    rfl
  · intro s hs
    simp only [packed, Packet.ofMessages, Packet.payloads, List.filterMap_cons, List.mem_filterMap,
      List.mem_map] at hs
    obtain ⟨m, ⟨piece, hpiece, rfl⟩, hm⟩ := hs
    cases hm
    exact h piece hpiece

end SegmentingRlc

/-- Sound segments can be taken in. -/
theorem Partial.exists_extend (before : Option Partial) (fragment : Fragment)
    {segment : Segment} (h : segment.offset + segment.length ≤ Word.highest) :
    ∃ r, Partial.extend before fragment segment = .ok r := by
  unfold Partial.extend
  split
  · exact ⟨_, rfl⟩
  · next p hp =>
    split
    · exact ⟨_, rfl⟩
    · next hoffset =>
      have hsum : checkedSum p.received segment.length = .ok (p.received + segment.length) := by
        rw [checkedSum, if_pos (Word.fits_iff.2 (by omega))]
      simp only [hsum, bind, Except.bind]
      split <;> exact ⟨_, rfl⟩

theorem Reassembly.exists_absorb (origin : Address) (streams : Reassembly)
    {segments : List (Address × Fragment × Segment)}
    (h : ∀ s ∈ segments, s.2.2.offset + s.2.2.length ≤ Word.highest) :
    ∃ r, absorb origin segments streams = .ok r := by
  induction segments generalizing streams with
  | nil => exact ⟨_, rfl⟩
  | cons s rest ih =>
    obtain ⟨channel, fragment, segment⟩ := s
    obtain ⟨⟨complete, after⟩, hextend⟩ := Partial.exists_extend
      (streams.get? ⟨origin, channel⟩) fragment (h _ List.mem_cons_self)
    obtain ⟨r, hr⟩ := ih (streams.set ⟨origin, channel⟩ after)
      fun s hs => h s (List.mem_cons_of_mem _ hs)
    refine ⟨(complete.toList ++ r.1, r.2), ?_⟩
    simp only [absorb, hextend, bind, Except.bind, hr]
    rfl

theorem Message.payload_of_segment? {m : Message} {channel : Address} {fragment : Fragment}
    {segment : Segment} (h : m.segment? = some (channel, fragment, segment)) :
    m.payload = some (.segment segment) := by
  obtain ⟨header, payload⟩ := m
  cases payload with
  | none => simp [Message.segment?] at h
  | some p =>
    cases p with
    | segment s =>
      simp only [Message.segment?, Payload.segment?, Option.bind_eq_bind, Option.bind_some,
        Option.pure_def, Option.bind_eq_some_iff, Option.some.injEq, Prod.mk.injEq] at h
      obtain ⟨_, _, _, _, -, -, rfl⟩ := h
      rfl
    | fixed n => simp [Message.segment?, Payload.segment?] at h
    | foreign bytes => simp [Message.segment?, Payload.segment?] at h

/-- Whatever was received before, a sound packet can be taken in. -/
theorem Packet.IsSound.exists_absorb {packet : Packet} (h : packet.IsSound)
    (streams : Reassembly) : ∃ r, Reassembly.absorb packet.origin
      (packet.messages.filterMap Message.segment?) streams = .ok r := by
  refine Reassembly.exists_absorb packet.origin streams ?_
  rintro ⟨channel, fragment, segment⟩ hs
  obtain ⟨m, hm, hsegment⟩ := List.mem_filterMap.1 hs
  exact h segment (List.mem_filterMap.2 ⟨m, hm, Message.payload_of_segment? hsegment⟩)

end DataLink
