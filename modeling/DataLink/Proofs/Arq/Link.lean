import DataLink.Arq.Link
import DataLink.Proofs.Basic
import DataLink.Proofs.Packet

/-!
# The two halves of a link

A link has a sending half (the next number, the frames that are held, those to send again) and a
receiving half (the next number expected, the frames that came early). Each operation changes one of
them; here it is said which, and what becomes of the frames that are held.
-/

namespace DataLink.Link

variable {window : Nat} {l : Link}

/-- The sending half is that of `l`. -/
structure SendsLike (l m : Link) : Prop where
  nextSeq : m.nextSeq = l.nextSeq
  unacked : m.unacked = l.unacked
  retransmit : m.retransmit = l.retransmit

/-- The receiving half is that of `l`, up to whether an acknowledgement is owed. -/
structure ReceivesLike (l m : Link) : Prop where
  nextExpected : m.nextExpected = l.nextExpected
  early : m.early = l.early

theorem isUnacked_iff {seq : SequenceNumber} :
    l.isUnacked seq = true ↔ ∃ f ∈ l.unacked, f.seq = seq := by
  simp [isUnacked]

/-! ## Taking frames in -/

theorem sendsLike_releaseUpTo (count : Nat) (l : Link) :
    SendsLike l (releaseUpTo count l).2 := by
  induction count generalizing l with
  | zero => exact ⟨rfl, rfl, rfl⟩
  | succ count ih =>
    rw [releaseUpTo]
    cases l.early.get? l.nextExpected with
    | none => exact ⟨rfl, rfl, rfl⟩
    | some packet =>
      obtain ⟨hnext, hunacked, hretransmit⟩ := ih
        { l with early := l.early.erase l.nextExpected, nextExpected := l.nextExpected.next }
      exact ⟨hnext, hunacked, hretransmit⟩

/-- What arrives on a link does not touch the frames it holds. -/
theorem sendsLike_accept (l : Link) (seq : SequenceNumber) (packet : Packet) (window : Nat) :
    SendsLike l (l.accept seq packet window).2 := by
  unfold accept
  split
  · obtain ⟨hnext, hunacked, hretransmit⟩ := sendsLike_releaseUpTo
      { l with nextExpected := l.nextExpected.next }.early.size
      { l with nextExpected := l.nextExpected.next }
    exact ⟨hnext, hunacked, hretransmit⟩
  · split <;> exact ⟨rfl, rfl, rfl⟩

/-! ## Taking acknowledgements in -/

/-- Asking for a frame again changes neither the frames that are held nor what was received. -/
theorem schedule_apply (l : Link) (seq : SequenceNumber) :
    ∃ retransmit, l.schedule seq = { l with retransmit } := by
  unfold schedule
  split
  · exact ⟨_, rfl⟩
  · exact ⟨l.retransmit, rfl⟩

/-- An acknowledgement drops frames, and may ask for others again. -/
theorem onAck_apply (l : Link) (nextExpected : SequenceNumber) (rejects : RejectMap)
    (window : Nat) : ∃ retransmit, l.onAck nextExpected rejects window =
      { l with
        unacked := l.unacked.filter fun f => !f.seq.isBehind nextExpected window
        retransmit } := by
  have hfold : ∀ (seqs : List SequenceNumber) (m : Link), ∃ retransmit,
      seqs.foldl schedule m = { m with retransmit } := by
    intro seqs
    induction seqs with
    | nil => exact fun m => ⟨m.retransmit, rfl⟩
    | cons seq rest ih =>
      intro m
      obtain ⟨first, hfirst⟩ := schedule_apply m seq
      obtain ⟨retransmit, hrest⟩ := ih { m with retransmit := first }
      exact ⟨retransmit, by rw [List.foldl_cons, hfirst, hrest]⟩
  exact hfold _ _

/-- Takes a frame from the peer in: what it acknowledges, and its content if it has a number. -/
def takeIn (l : Link) (h : UnicastHeader) (packet : Packet) (window : Nat) : List Packet × Link :=
  let acked := l.onAck h.nextExpected h.rejects window
  if h.seq.isSet then { acked with isAckPending := true }.accept h.seq packet window
  else ([], acked)

/-- Of the sending half, taking a packet in only drops the frames that it acknowledges. -/
theorem takeIn_sending (l : Link) (h : UnicastHeader) (packet : Packet) (window : Nat) :
    (l.takeIn h packet window).2.nextSeq = l.nextSeq ∧
      (l.takeIn h packet window).2.unacked =
        l.unacked.filter fun f => !f.seq.isBehind h.nextExpected window := by
  obtain ⟨retransmit, hack⟩ := onAck_apply l h.nextExpected h.rejects window
  simp only [takeIn, hack]
  split
  · obtain ⟨hnext, hunacked, -⟩ := sendsLike_accept { l with
      unacked := l.unacked.filter fun f => !f.seq.isBehind h.nextExpected window
      retransmit
      isAckPending := true } h.seq packet window
    exact ⟨hnext, hunacked⟩
  · exact ⟨rfl, rfl⟩

/-! ## Acknowledging -/

theorem ackHeader_eq_ok {dest : Address} {h : UnicastHeader} (hheader : l.ackHeader dest window = .ok h) :
    h = l.stamp .unset window { (default : UnicastHeader) with dest } := by
  rw [ackHeader, UnicastHeader.to?] at hheader
  split at hheader
  · cases hheader
  · exact (Except.ok.inj hheader).symm

/-! ## Sending frames again -/

theorem map_postpone (seq : SequenceNumber) (resendAt : Nat) (frames : List SentFrame) :
    (postpone seq resendAt frames).map (fun f => (f.seq, f.packet)) =
      frames.map fun f => (f.seq, f.packet) := by
  induction frames with
  | nil => rfl
  | cons f rest ih =>
    rw [postpone]
    split
    · rfl
    · rw [List.map_cons, List.map_cons, ih]

theorem mem_postpone {seq : SequenceNumber} {resendAt : Nat} {frames : List SentFrame}
    {f : SentFrame} (h : f ∈ postpone seq resendAt frames) :
    ∃ g ∈ frames, g.seq = f.seq ∧ g.packet = f.packet := by
  have hmem := List.mem_map_of_mem (f := fun f => (f.seq, f.packet)) h
  rw [map_postpone] at hmem
  obtain ⟨g, hg, he⟩ := List.mem_map.1 hmem
  exact ⟨g, hg, (Prod.mk.inj he).1, (Prod.mk.inj he).2⟩

theorem exists_mem_postpone (seq : SequenceNumber) (resendAt : Nat) {frames : List SentFrame}
    {f : SentFrame} (h : f ∈ frames) :
    ∃ g ∈ postpone seq resendAt frames, g.seq = f.seq ∧ g.packet = f.packet := by
  have hmem := List.mem_map_of_mem (f := fun f => (f.seq, f.packet)) h
  rw [← map_postpone seq resendAt] at hmem
  obtain ⟨g, hg, he⟩ := List.mem_map.1 hmem
  exact ⟨g, hg, (Prod.mk.inj he).1, (Prod.mk.inj he).2⟩

/-- Sending a frame again changes when it is sent next and what is to be sent again, and clears the
acknowledgement that was owed. -/
theorem resend_eq_some {slot resendAt bits : Nat} {packet : Packet} {after : Link}
    (h : l.resend window slot resendAt bits = .ok (some (packet, after))) :
    ∃ seq frame, l.nextToResend? window slot = some seq ∧
      l.unacked.find? (fun f => f.seq = seq) = some frame ∧
      packet = frame.packet.copy.mapUnicast (l.stamp seq window) ∧
      after = { l with
        unacked := postpone seq resendAt l.unacked
        retransmit := l.retransmit.filter fun s => s ≠ seq
        isAckPending := false } := by
  unfold resend at h
  split at h
  · simp at h
  · next seq hseq =>
    split at h
    · simp at h
    · next frame hframe =>
      obtain ⟨bitsOf, -, h⟩ := bind_eq_ok.1 h
      split at h
      · simp [pure, Except.pure] at h
      · simp only [pure, Except.pure, Except.ok.injEq, Option.some.injEq, Prod.mk.injEq] at h
        exact ⟨seq, frame, hseq, hframe, h.1.symm, h.2.symm⟩

/-! ## The frames that are held -/

/-- The frames that are held have `P`. -/
def Holds (P : Packet → Prop) (l : Link) : Prop := ∀ f ∈ l.unacked, P f.packet

section Holds

variable {P : Packet → Prop}

/-- What arrives only lets frames go. -/
theorem Holds.takeIn (h : l.Holds P) (header : UnicastHeader) (packet : Packet) (window : Nat) :
    (l.takeIn header packet window).2.Holds P := by
  intro f hf
  rw [(takeIn_sending l header packet window).2] at hf
  exact h f (List.mem_filter.1 hf).1

theorem Holds.postpone (h : l.Holds P) (seq : SequenceNumber) (resendAt : Nat) :
    ∀ f ∈ postpone seq resendAt l.unacked, P f.packet := by
  intro f hf
  obtain ⟨g, hg, -, hpacket⟩ := mem_postpone hf
  exact hpacket ▸ h g hg

theorem Holds.send (h : l.Holds P) {packet : Packet}
    (hp : P (packet.mapUnicast (l.stamp l.nextSeq window)).copy) (resendAt : Nat) :
    (l.send packet window resendAt).2.Holds P := by
  intro f hf
  rcases List.mem_append.1 hf with hf | hf
  · exact h f hf
  · rw [List.mem_singleton.1 hf]
    exact hp

theorem Holds.resend (h : l.Holds P) {slot resendAt bits : Nat} {packet : Packet} {after : Link}
    (hres : l.resend window slot resendAt bits = .ok (some (packet, after))) :
    after.Holds P ∧ ∃ held seq, P held ∧ packet = held.copy.mapUnicast (l.stamp seq window) := by
  obtain ⟨seq, frame, -, hfind, hpacket, rfl⟩ := resend_eq_some hres
  exact ⟨h.postpone seq resendAt, frame.packet, seq, h frame (List.mem_of_find?_eq_some hfind),
    hpacket⟩

end Holds

/-! ## The frames that are to be sent again -/

/-- Only frames that are held are to be sent again. -/
def AsksHeld (l : Link) : Prop := ∀ seq ∈ l.retransmit, l.isUnacked seq = true

theorem AsksHeld.schedule (h : l.AsksHeld) (seq : SequenceNumber) : (l.schedule seq).AsksHeld := by
  unfold Link.schedule
  split
  · next hs =>
    rw [Bool.and_eq_true] at hs
    intro s hmem
    rcases List.mem_append.1 hmem with hmem | hmem
    · exact h s hmem
    · rw [List.mem_singleton.1 hmem]
      exact hs.1
  · exact h

theorem asksHeld_acknowledge (l : Link) (nextExpected : SequenceNumber) (window : Nat) :
    (l.acknowledge nextExpected window).AsksHeld :=
  fun _ hmem => (List.mem_filter.1 hmem).2

theorem asksHeld_onAck (l : Link) (nextExpected : SequenceNumber) (rejects : RejectMap)
    (window : Nat) : (l.onAck nextExpected rejects window).AsksHeld := by
  unfold Link.onAck
  have hstart := asksHeld_acknowledge l nextExpected window
  generalize rejects.missing nextExpected = seqs, l.acknowledge nextExpected window = start at hstart ⊢
  induction seqs generalizing start with
  | nil => exact hstart
  | cons seq rest ih => exact ih _ (hstart.schedule seq)

theorem AsksHeld.congr (h : l.AsksHeld) {m : Link} (hlike : SendsLike l m) : m.AsksHeld := by
  intro seq hseq
  rw [hlike.retransmit] at hseq
  rw [isUnacked, hlike.unacked]
  exact h seq hseq

theorem asksHeld_takeIn (l : Link) (h : UnicastHeader) (packet : Packet) (window : Nat) :
    (l.takeIn h packet window).2.AsksHeld := by
  have hack := asksHeld_onAck l h.nextExpected h.rejects window
  simp only [takeIn]
  split
  · have hpending : AsksHeld { l.onAck h.nextExpected h.rejects window with isAckPending := true } :=
      hack
    exact hpending.congr (sendsLike_accept _ h.seq packet window)
  · exact hack

theorem AsksHeld.resend (h : l.AsksHeld) {slot resendAt bits : Nat} {packet : Packet} {after : Link}
    (hres : l.resend window slot resendAt bits = .ok (some (packet, after))) : after.AsksHeld := by
  obtain ⟨seq, frame, -, -, -, rfl⟩ := resend_eq_some hres
  intro s hs
  obtain ⟨f, hf, rfl⟩ := isUnacked_iff.1 (h s (List.mem_filter.1 hs).1)
  obtain ⟨g, hg, hgs, -⟩ := exists_mem_postpone seq resendAt hf
  exact isUnacked_iff.2 ⟨g, hg, hgs⟩

theorem AsksHeld.send (h : l.AsksHeld) (packet : Packet) (resendAt : Nat) :
    (l.send packet window resendAt).2.AsksHeld := by
  intro s hs
  obtain ⟨f, hf, hfs⟩ := isUnacked_iff.1 (h s hs)
  exact isUnacked_iff.2 ⟨f, List.mem_append_left _ hf, hfs⟩

theorem AsksHeld.exists_find (h : l.AsksHeld) {slot : Nat} {seq : SequenceNumber}
    (hnext : l.nextToResend? window slot = some seq) :
    ∃ frame, l.unacked.find? (fun f => f.seq = seq) = some frame := by
  have hheld : ∃ f ∈ l.unacked, f.seq = seq := by
    unfold nextToResend? at hnext
    cases hr : l.retransmit with
    | cons first rest =>
      rw [hr] at hnext
      cases hnext
      exact isUnacked_iff.1 (h _ (by rw [hr]; exact List.mem_cons_self))
    | nil =>
      simp only [hr] at hnext
      split at hnext
      · obtain ⟨f, hf, rfl⟩ := Option.map_eq_some_iff.1 hnext
        exact ⟨f, List.mem_of_mem_head? hf, rfl⟩
      · obtain ⟨f, hf, rfl⟩ := Option.map_eq_some_iff.1 hnext
        exact ⟨f, List.mem_of_find?_eq_some hf, rfl⟩
  obtain ⟨f, hf, hseq⟩ := hheld
  have hsome : (l.unacked.find? fun f => f.seq = seq).isSome := by
    rw [List.find?_isSome]
    exact ⟨f, hf, by simp [hseq]⟩
  exact Option.isSome_iff_exists.1 hsome

/-- A link has something to send by itself if it owes an acknowledgement or has a frame to send
again. -/
theorem isOwing_eq (hpos : 0 < window) (l : Link) (slot : Nat) :
    l.isOwing window slot = (l.isAckPending || (l.nextToResend? window slot).isSome) := by
  rw [isOwing, Bool.or_assoc, Bool.or_assoc, nextToResend?]
  congr 1
  cases hr : l.retransmit with
  | cons seq rest => rfl
  | nil =>
    cases hfull : l.isFull window with
    | false => rfl
    | true =>
      rw [isFull, decide_eq_true_eq] at hfull
      cases hu : l.unacked with
      | nil =>
        rw [hu] at hfull
        exact absurd hfull (Nat.not_le_of_lt hpos)
      | cons f rest => rfl

/-! ## Contents -/

theorem content_stamp (l : Link) (seq : SequenceNumber) (window : Nat) (p : Packet) :
    (p.mapUnicast (l.stamp seq window)).content = p.content :=
  Packet.content_mapUnicast (f := l.stamp seq window) (fun _ => rfl) p

end DataLink.Link
